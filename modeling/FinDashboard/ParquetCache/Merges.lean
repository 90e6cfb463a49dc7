import FinDashboard.Ledger.KeyedMerge
import FinDashboard.Runs.Guarded
import Mathlib.Algebra.Order.Ring.Rat

/-!
# Merges into a cache file

A merge reads the bars of a file, merges a batch into them by their times and writes the file anew. Other
merges take their turns between its read and its write.
-/

namespace FinDashboard.ParquetCache

open Ledger (mergeRows)
open Runs (Guarded Parties TurnMeets run turn)

def hourMicros : ℤ := 3600000000

def dayMicros : ℤ := 86400000000

/-- A bar; its time is given in microseconds from the midnight UTC that begins day zero. -/
structure Bar where
  timestamp : ℤ
  «open» : ℚ
  high : ℚ
  low : ℚ
  close : ℚ
  volume : ℚ
  amount : ℚ
  source : String
deriving DecidableEq, Repr

/-- `timestamp.date()`. -/
def dateOf (timestamp : ℤ) : ℤ := timestamp / dayMicros

/-- `timestamp.hour`. -/
def hourOf (timestamp : ℤ) : ℤ := timestamp % dayMicros / hourMicros

/-- The symbol of a series, and whether its period is a day. -/
structure SeriesKey where
  code : String
  daily : Bool
deriving DecidableEq, Repr

def aShareSuffixes : List String := [".SH", ".SZ", ".BJ"]

def SeriesKey.aShare (key : SeriesKey) : Bool :=
  aShareSuffixes.any fun suffix => suffix.toList.isSuffixOf key.code.toList

/-- Midnight of the day, where 16:00 in UTC is the midnight of the next one for the A share markets. -/
def midnight (aShare : Bool) (timestamp : ℤ) : ℤ :=
  dateOf (if aShare ∧ hourOf timestamp = 16 then timestamp + 8 * hourMicros else timestamp) * dayMicros

/-- `_normalise_timestamp`, of a time in UTC. -/
def SeriesKey.normalise (key : SeriesKey) (timestamp : ℤ) : ℤ :=
  if key.daily then midnight key.aShare timestamp else timestamp

def sortBars (bars : List Bar) : List Bar := bars.insertionSort fun bar other => bar.timestamp ≤ other.timestamp

/-- `read_bars_sync`; no file reads as no bars. -/
def readBars (key : SeriesKey) (file : List Bar) : List Bar :=
  sortBars (file.map fun bar => { bar with timestamp := key.normalise bar.timestamp })

/-- `write`; nothing is written where there are no bars. -/
def write (file bars : List Bar) : List Bar := if bars = [] then file else bars

/-- The bars by their times, a later one in place of an earlier one. -/
def mergeBars (existing newBars : List Bar) : List Bar := mergeRows (·.timestamp) existing newBars

/-- The arguments of `merge`. -/
structure MergeCall where
  newBars : List Bar
  existingBars : Option (List Bar) := none

inductive MergeProgress
  | started
  | loaded (existing : List Bar)
  | done
deriving DecidableEq, Repr

/-- What a merge waits for. -/
inductive MergeIO
  | read
  | write
deriving DecidableEq, Repr

section Merges

variable {ι : Type}

def mergeTurn (key : SeriesKey) (calls : ι → MergeCall) (i : ι) (io : MergeIO) (file : List Bar)
    (progress : MergeProgress) : List Bar × MergeProgress :=
  match io, progress with
  | .read, .started => (file, .loaded ((calls i).existingBars.getD (readBars key file)))
  | .write, .loaded existing => (write file (mergeBars existing (calls i).newBars), .done)
  | _, progress => (file, progress)

/-- The file, and the merges that share it. -/
abbrev MergeState (ι : Type) := Parties ι (List Bar) MergeProgress

def MergeState.start (file : List Bar) : MergeState ι := ⟨file, fun _ => .started⟩

/-- Some bar has the time. -/
def Timed (timestamp : ℤ) (bars : List Bar) : Prop := ∃ bar ∈ bars, bar.timestamp = timestamp

instance (timestamp : ℤ) (bars : List Bar) : Decidable (Timed timestamp bars) :=
  inferInstanceAs (Decidable (∃ bar ∈ bars, bar.timestamp = timestamp))

/-- What is written has the times of the file. -/
def Covers (file existing newBars : List Bar) : Prop :=
  existing ++ newBars = [] ∨
    ∀ bar ∈ file, Timed bar.timestamp existing ∨ Timed bar.timestamp newBars

instance (file existing newBars : List Bar) : Decidable (Covers file existing newBars) :=
  inferInstanceAs (Decidable (_ ∨ _))

/-- A merge that writes has the times of the file. -/
def WritesCover (calls : ι → MergeCall) (i : ι) (io : MergeIO) (file : List Bar) (progress : MergeProgress) :
    Prop :=
  match io, progress with
  | .write, .loaded existing => Covers file existing (calls i).newBars
  | _, _ => True

instance (calls : ι → MergeCall) (i : ι) (file : List Bar) :
    ∀ io progress, Decidable (WritesCover calls i io file progress)
  | .read, _ => .isTrue trivial
  | .write, .started => .isTrue trivial
  | .write, .loaded existing => inferInstanceAs (Decidable (Covers file existing (calls i).newBars))
  | .write, .done => .isTrue trivial

variable {timestamp : ℤ}

theorem timed_mergeBars {existing newBars : List Bar} : Timed timestamp (mergeBars existing newBars)
    ↔ Timed timestamp existing ∨ Timed timestamp newBars :=
  Ledger.keys_mergeRows

theorem mergeBars_eq_nil {existing newBars : List Bar} :
    mergeBars existing newBars = [] ↔ existing ++ newBars = [] := by
  constructor
  · intro empty
    apply List.eq_nil_iff_forall_not_mem.mpr
    intro bar member
    have timed :=
      timed_mergeBars.mpr ((List.mem_append.mp member).imp (fun old => ⟨bar, old, rfl⟩) fun new => ⟨bar, new, rfl⟩)
    rw [empty] at timed
    obtain ⟨other, member, -⟩ := timed
    cases member
  · intro empty
    obtain ⟨rfl, rfl⟩ := List.append_eq_nil_iff.mp empty
    rfl

theorem timed_write_iff {file existing newBars : List Bar} :
    (∀ timestamp, Timed timestamp file → Timed timestamp (write file (mergeBars existing newBars))) ↔
      Covers file existing newBars := by
  unfold write Covers
  split
  · rename_i empty
    simp [mergeBars_eq_nil.mp empty]
  · rename_i written
    rw [mergeBars_eq_nil] at written
    simp only [written, false_or, timed_mergeBars]
    constructor
    · exact fun kept bar member => kept bar.timestamp ⟨bar, member, rfl⟩
    · rintro covers timestamp ⟨bar, member, rfl⟩
      exact covers bar member

theorem timed_write_new {file existing newBars : List Bar} (merged : Timed timestamp newBars) :
    Timed timestamp (write file (mergeBars existing newBars)) := by
  have kept : Timed timestamp (mergeBars existing newBars) := timed_mergeBars.mpr (.inr merged)
  unfold write
  split
  · rename_i empty
    rw [empty] at kept
    obtain ⟨bar, member, -⟩ := kept
    cases member
  · exact kept

variable {key : SeriesKey} {calls : ι → MergeCall}

theorem timed_mergeTurn {i : ι} {io : MergeIO} {file : List Bar} {progress : MergeProgress}
    (covers : WritesCover calls i io file progress) (timed : Timed timestamp file) :
    Timed timestamp (mergeTurn key calls i io file progress).1 := by
  unfold mergeTurn
  split
  · exact timed
  · exact timed_write_iff.mpr covers timestamp timed
  · exact timed

theorem timed_mergeTurn_done {i : ι} {io : MergeIO} {file : List Bar} {progress : MergeProgress}
    (done : (mergeTurn key calls i io file progress).2 = .done)
    (merged : Timed timestamp (calls i).newBars) (earlier : progress = .done → Timed timestamp file) :
    Timed timestamp (mergeTurn key calls i io file progress).1 := by
  cases progress with
  | started => cases io with
    | read => cases done
    | write => cases done
  | loaded existing => cases io with
    | read => cases done
    | write => exact timed_write_new merged
  | done => cases io with
    | read => exact earlier rfl
    | write => exact earlier rfl

/-- If every write covers the file, then no time of the first file is lost, and none of a batch whose merge
is done. -/
theorem merges_lose_nothing [DecidableEq ι] (key : SeriesKey) (calls : ι → MergeCall) (file : List Bar)
    (turns : List (ι × MergeIO))
    (covering : Guarded (turn (mergeTurn key calls)) (TurnMeets (WritesCover calls)) (MergeState.start file) turns) :
    (∀ timestamp, Timed timestamp file →
      Timed timestamp (run (turn (mergeTurn key calls)) (MergeState.start file) turns).shared) ∧
    ∀ i, (run (turn (mergeTurn key calls)) (MergeState.start file) turns).own i = .done →
      ∀ timestamp, Timed timestamp (calls i).newBars →
        Timed timestamp (run (turn (mergeTurn key calls)) (MergeState.start file) turns).shared := by
  have start : Runs.EachKnows (fun current => ∀ timestamp, Timed timestamp file → Timed timestamp current)
      (fun i current progress => progress = .done → ∀ timestamp, Timed timestamp (calls i).newBars →
        Timed timestamp current) (MergeState.start file) :=
    ⟨fun _ timed => timed, by simp [MergeState.start]⟩
  apply covering.invariant start
  intro state event knows covers
  apply knows.turn
  · constructor
    · exact fun timestamp timed => timed_mergeTurn covers (knows.1 timestamp timed)
    · exact fun done timestamp merged =>
        timed_mergeTurn_done done merged fun earlier => knows.2 event.1 earlier timestamp merged
  · exact fun i progress known done timestamp merged => timed_mergeTurn covers (known done timestamp merged)

end Merges

def barOf (day : ℤ) (price : ℚ) : Bar where
  timestamp := day * dayMicros
  «open» := price
  high := price
  low := price
  close := price
  volume := 0
  amount := 0
  source := "akshare"

def twoMerges (first : Bool) : MergeCall := { newBars := [barOf (if first then 1 else 2) 10] }

theorem merges_lose_nothing_in_turn :
    (∀ timestamp, Timed timestamp [] →
      Timed timestamp (run (turn (mergeTurn ⟨"510300.SH", true⟩ twoMerges)) (MergeState.start [])
        [(true, .read), (true, .write), (false, .read), (false, .write)]).shared) ∧
    ∀ i, (run (turn (mergeTurn ⟨"510300.SH", true⟩ twoMerges)) (MergeState.start [])
        [(true, .read), (true, .write), (false, .read), (false, .write)]).own i = .done →
      ∀ timestamp, Timed timestamp (twoMerges i).newBars →
        Timed timestamp (run (turn (mergeTurn ⟨"510300.SH", true⟩ twoMerges)) (MergeState.start [])
          [(true, .read), (true, .write), (false, .read), (false, .write)]).shared :=
  merges_lose_nothing ⟨"510300.SH", true⟩ twoMerges [] _ (by decide)

/-- Both merges read before the first one writes: its bar is lost. -/
theorem interleaved_merge_lost :
    let final := run (turn (mergeTurn ⟨"510300.SH", true⟩ twoMerges)) (MergeState.start [])
      [(true, .read), (false, .read), (true, .write), (false, .write)]
    final.own true = .done ∧ final.own false = .done ∧ Timed dayMicros (twoMerges true).newBars ∧
      ¬Timed dayMicros final.shared := by
  decide

end FinDashboard.ParquetCache
