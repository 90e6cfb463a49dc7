import FinDashboard.Ledger.KeyedMerge
import FinDashboard.Runs.Fallible
import Mathlib.Algebra.Order.Monoid.Unbundled.WithTop
import Mathlib.Algebra.Order.Ring.Rat

/-!
# Repairs across sources

Bars of a primary source that fail the quality check are replaced by those of the fallbacks. The first
fallback that repairs a date is the only one that is used, and of several bars of a date the first one is
replaced, whichever of them fails the check.
-/

namespace FinDashboard.Quality

open List

open Ledger (byKey find)

/-- A decimal: not a number, infinite or finite. -/
abbrev Quote := Option (WithBot (WithTop ℚ))

def Quote.of (value : ℚ) : Quote := some ((value : WithTop ℚ) : WithBot (WithTop ℚ))

/-- A bar; its time is that of its own clock, in microseconds. -/
structure Bar where
  symbol : String
  period : String
  timestamp : ℤ
  «open» : Quote
  high : Quote
  low : Quote
  close : Quote
  volume : Quote
  amount : Quote
  source : String
deriving DecidableEq

/-- `timestamp.date()`. -/
def Bar.date (bar : Bar) : ℤ := bar.timestamp / 86400000000

/-- A comparison with what is not a number raises. -/
inductive CheckError
  | invalidOperation
deriving DecidableEq, Repr

/-- `==`: what is not a number equals nothing. -/
def Quote.same : Quote → Quote → Bool
  | some x, some y => x = y
  | _, _ => false

/-- The product with a positive number. -/
def scale (factor : ℚ) (value : WithBot (WithTop ℚ)) : WithBot (WithTop ℚ) := value.map (·.map (factor * ·))

def ohlcTolerance : ℚ := 1 / 100

def priceReason (name : String) : Quote → List String
  | none => [name ++ "_nan"]
  | some value => if value ≤ 0 then [name ++ "_non_positive"] else []

/-- The reasons against the order of the prices, where all are numbers. -/
def orderReasons (bar : Bar) : List String :=
  match bar.open, bar.high, bar.low, bar.close with
  | some o, some h, some low, some c =>
      (if h < scale (1 - ohlcTolerance) (max o (max low c)) then ["high_lt_ohlc"] else []) ++
        if scale (1 + ohlcTolerance) (min o (min h c)) < low then ["low_gt_ohlc"] else []
  | _, _, _, _ => []

/-- The reason against a quantity below zero. -/
def negativeReason (reason : String) : Quote → Except CheckError (List String)
  | none => .error .invalidOperation
  | some value => .ok (if value < 0 then [reason] else [])

/-- `_check_bar`: a bar without trades may repeat one price. -/
def checkBar (bar : Bar) : Except CheckError (List String) :=
  if bar.volume.same (.of 0) ∧ bar.open.same bar.high ∧ bar.high.same bar.low ∧ bar.low.same bar.close then .ok []
  else do
    let volume ← negativeReason "neg_volume" bar.volume
    let amount ← negativeReason "neg_amount" bar.amount
    .ok (priceReason "open" bar.open ++ priceReason "high" bar.high ++ priceReason "low" bar.low ++
      priceReason "close" bar.close ++ orderReasons bar ++ volume ++ amount)

structure BarAnomaly where
  date : ℤ
  source : String
  reasons : List String
deriving DecidableEq, Repr

structure BarQualityResult where
  symbol : String
  totalBars : ℕ
  anomalies : List BarAnomaly
  duplicateCount : ℕ
  sources : List String
deriving DecidableEq, Repr

def BarQualityResult.anomalyDates (result : BarQualityResult) : List ℤ := result.anomalies.map (·.date)

def BarQualityResult.passed (result : BarQualityResult) : Bool :=
  result.anomalies.length = 0 && result.duplicateCount = 0

def duplicates : List Bar → List ℤ → ℕ
  | [], _ => 0
  | bar :: rest, seen => if bar.date ∈ seen then duplicates rest seen + 1 else duplicates rest (bar.date :: seen)

/-- `sorted` of the sources that are named. -/
def sourcesOf (bars : List Bar) : List String :=
  (((bars.map (·.source)).filter (· ≠ "")).dedup).insertionSort (· ≤ ·)

def barAnomalies : List Bar → Except CheckError (List BarAnomaly)
  | [] => .ok []
  | bar :: rest => do
    let reasons ← checkBar bar
    let later ← barAnomalies rest
    .ok (if reasons = [] then later else { date := bar.date, source := bar.source, reasons } :: later)

def check (symbol : String) (bars : List Bar) : Except CheckError BarQualityResult := do
  let anomalies ← barAnomalies bars
  .ok { symbol, totalBars := bars.length, anomalies, duplicateCount := duplicates bars [], sources := sourcesOf bars }

structure FetchResult where
  symbol : String
  bars : List Bar
  quality : BarQualityResult
  primarySource : String
  fallbackUsed : Bool
  fallbackSource : Option String
  correctedDates : List ℤ
deriving DecidableEq

/-- What a source answers, in the order of the sources; one that raises answers nothing. -/
abbrev Answers := List (String × Option (List Bar))

/-- The bars merged so far, and the dates that are corrected. -/
structure Repair where
  merged : List Bar
  corrected : List ℤ

def replaceFirst (day : ℤ) (new : Bar) : List Bar → Option (List Bar)
  | [] => none
  | bar :: rest => if bar.date = day then some (new :: rest) else (replaceFirst day new rest).map (bar :: ·)

/-- `bar_with_src`. -/
def Bar.fromSource (source : String) (bar : Bar) : Bar := { bar with source }

/-- A date of a fallback: its last bar is taken if the date is to be repaired and the bar passes the check. -/
def repairDate (source : String) (anomalyDates : List ℤ) (state : Repair) (entry : ℤ × Bar) :
    Except CheckError Repair :=
  if entry.1 ∈ anomalyDates then
    (checkBar entry.2).map fun reasons =>
      if reasons = [] then
        match replaceFirst entry.1 (entry.2.fromSource source) state.merged with
        | none => state
        | some merged => { merged, corrected := state.corrected ++ [entry.1] }
      else state
  else .ok state

def repairDates (source : String) (anomalyDates : List ℤ) : List (ℤ × Bar) → Repair → Except CheckError Repair
  | [], state => .ok state
  | entry :: rest, state => do
    let next ← repairDate source anomalyDates state entry
    repairDates source anomalyDates rest next

def repairSources (primary : String) (anomalyDates : List ℤ) :
    Answers → Repair → Except CheckError (Repair × Option String)
  | [], state => .ok (state, none)
  | (source, answer) :: rest, state =>
      if source = primary then repairSources primary anomalyDates rest state
      else match answer with
        | none => repairSources primary anomalyDates rest state
        | some bars => do
          let repaired ← repairDates source anomalyDates (byKey (·.date) bars) state
          if repaired.corrected ≠ [] then .ok (repaired, some source)
          else repairSources primary anomalyDates rest repaired

def crossValidate (symbol primary : String) (answers : Answers) (primaryBars : List Bar)
    (primaryQuality : BarQualityResult) : Except CheckError FetchResult := do
  let (repair, source) ← repairSources primary primaryQuality.anomalyDates answers
    { merged := primaryBars, corrected := [] }
  let quality ← check symbol repair.merged
  .ok {
    symbol
    bars := repair.merged
    quality
    primarySource := primary
    fallbackUsed := repair.corrected ≠ []
    fallbackSource := source
    correctedDates := repair.corrected.insertionSort (· ≤ ·) }

/-- A bar that passes the check. -/
def Clean (bar : Bar) : Prop := checkBar bar = .ok []

instance (bar : Bar) : Decidable (Clean bar) := inferInstanceAs (Decidable (checkBar bar = .ok []))

def barsOf (day : ℤ) (bars : List Bar) : List Bar := bars.filter fun bar => bar.date = day

/-- A fallback that answers has a bar for a date that passes the check. -/
def Offered (primary : String) (answers : Answers) (day : ℤ) : Prop :=
  ∃ source bars, (source, some bars) ∈ answers ∧ source ≠ primary ∧ ∃ bar ∈ barsOf day bars, Clean bar

/-- Corrected dates are clean, bars of dates without anomaly are kept, and no date stays anomalous for which a
fallback offers a clean bar. -/
structure SoundRepair (primary : String) (answers : Answers) (primaryBars : List Bar) (anomalyDates : List ℤ)
    (result : FetchResult) : Prop where
  corrected : ∀ day ∈ result.correctedDates, ∀ bar ∈ barsOf day result.bars, Clean bar
  length : result.bars.length = primaryBars.length
  kept : ∀ (place : ℕ) (bar : Bar), primaryBars[place]? = some bar → bar.date ∉ anomalyDates →
    result.bars[place]? = some bar
  exhausted : ∀ day ∈ result.quality.anomalyDates, ¬ Offered primary answers day

/-- The last bar of a date passes the check. -/
def repairs (bars : List Bar) (day : ℤ) : Bool := (find day (byKey (·.date) bars)).any fun bar => Clean bar

def firstRepairing (primary : String) (anomalyDates : List ℤ) : Answers → Option (List Bar)
  | [] => none
  | (source, answer) :: rest =>
      if source = primary then firstRepairing primary anomalyDates rest
      else match answer with
        | none => firstRepairing primary anomalyDates rest
        | some bars =>
            if anomalyDates.any (repairs bars) then some bars else firstRepairing primary anomalyDates rest

/-- The bars of a date after its first one pass the check. -/
def LaterClean (bars : List Bar) (day : ℤ) : Prop := ∀ bar ∈ (barsOf day bars).tail, Clean bar

section Replacing

variable {day : ℤ} {new : Bar} {bars merged : List Bar} {corrected : List ℤ}

/-- What a replacement changes. -/
structure Replaced (day : ℤ) (new : Bar) (bars merged : List Bar) : Prop where
  own : barsOf day merged = new :: (barsOf day bars).tail
  others : ∀ other, other ≠ day → barsOf other merged = barsOf other bars
  length : merged.length = bars.length
  places : ∀ (place : ℕ) (bar : Bar), bars[place]? = some bar → bar.date ≠ day → merged[place]? = some bar

theorem barsOf_cons_of_eq {bar : Bar} (same : bar.date = day) : barsOf day (bar :: bars) = bar :: barsOf day bars :=
  filter_cons_of_pos (by simpa using same)

theorem barsOf_cons_of_ne {bar : Bar} (differs : bar.date ≠ day) : barsOf day (bar :: bars) = barsOf day bars :=
  filter_cons_of_neg (by simpa using differs)

theorem replaceFirst_replaced (dated : new.date = day) (listed : barsOf day bars ≠ []) :
    ∃ merged, replaceFirst day new bars = some merged ∧ Replaced day new bars merged := by
  induction bars with
  | nil => exact absurd rfl listed
  | cons bar rest ih =>
    rw [replaceFirst]
    by_cases same : bar.date = day
    · rw [if_pos same]
      refine ⟨_, rfl, ?_, ?_, rfl, ?_⟩
      · rw [barsOf_cons_of_eq dated, barsOf_cons_of_eq same, tail_cons]
      · intro other differs
        rw [barsOf_cons_of_ne (dated.trans_ne differs.symm), barsOf_cons_of_ne (same.trans_ne differs.symm)]
      · intro place kept found apart
        cases place with
        | zero =>
          obtain rfl : bar = kept := by simpa using found
          exact absurd same apart
        | succ place => simpa using found
    · rw [barsOf_cons_of_ne same] at listed
      obtain ⟨merged, replaced, spec⟩ := ih listed
      rw [if_neg same, replaced]
      refine ⟨bar :: merged, rfl, ?_, ?_, ?_, ?_⟩
      · rw [barsOf_cons_of_ne same, barsOf_cons_of_ne same, spec.own]
      · intro other differs
        by_cases held : bar.date = other
        · rw [barsOf_cons_of_eq held, barsOf_cons_of_eq held, spec.others other differs]
        · rw [barsOf_cons_of_ne held, barsOf_cons_of_ne held, spec.others other differs]
      · rw [length_cons, length_cons, spec.length]
      · intro place kept found apart
        cases place with
        | zero => simpa using found
        | succ place =>
          rw [getElem?_cons_succ] at found ⊢
          exact spec.places place kept found apart

/-- The bars after the first one of each of some dates has been replaced by a clean one. -/
structure Merged (bars : List Bar) (corrected : List ℤ) (merged : List Bar) : Prop where
  own : ∀ day ∈ corrected, ∃ new, Clean new ∧ barsOf day merged = new :: (barsOf day bars).tail
  others : ∀ day, day ∉ corrected → barsOf day merged = barsOf day bars
  length : merged.length = bars.length
  places : ∀ (place : ℕ) (bar : Bar), bars[place]? = some bar → bar.date ∉ corrected → merged[place]? = some bar

theorem Merged.replace {next : List Bar} (before : Merged bars corrected merged) (fresh : day ∉ corrected)
    (clean : Clean new) (replaced : Replaced day new merged next) : Merged bars (corrected ++ [day]) next where
  own := by
    intro other member
    rcases mem_append.mp member with early | now
    · obtain ⟨kept, passes, same⟩ := before.own other early
      have differs : other ≠ day := fun equal => fresh (equal ▸ early)
      exact ⟨kept, passes, (replaced.others other differs).trans same⟩
    · obtain rfl := mem_singleton.mp now
      exact ⟨new, clean, by rw [replaced.own, before.others other fresh]⟩
  others := by
    intro other absent
    rw [mem_append, mem_singleton, not_or] at absent
    exact (replaced.others other absent.2).trans (before.others other absent.1)
  length := replaced.length.trans before.length
  places := by
    intro place bar found absent
    rw [mem_append, mem_singleton, not_or] at absent
    exact replaced.places place bar (before.places place bar found absent.1) absent.2

end Replacing

section Loops

variable {primary source : String} {anomalyDates : List ℤ} {bars : List Bar} {entries : List (ℤ × Bar)}
  {state repaired : Repair} {day : ℤ}

/-- A date that is to be repaired is, exactly if the bar offered for it passes the check. -/
theorem repairDate_merged {entry : ℤ × Bar} (merged : Merged bars state.corrected state.merged)
    (listed : ∀ day ∈ anomalyDates, barsOf day bars ≠ []) (dated : entry.2.date = entry.1)
    (fresh : entry.1 ∉ state.corrected) (done : repairDate source anomalyDates state entry = .ok repaired) :
    Merged bars repaired.corrected repaired.merged ∧
      repaired.corrected = state.corrected ++ if entry.1 ∈ anomalyDates ∧ Clean entry.2 then [entry.1] else [] := by
  unfold repairDate at done
  by_cases anomalous : entry.1 ∈ anomalyDates
  · rw [if_pos anomalous] at done
    cases checked : checkBar entry.2 with
    | error error =>
      rw [checked] at done
      cases done
    | ok reasons =>
      rw [checked] at done
      have done := Except.ok.inj done
      beta_reduce at done
      by_cases clean : reasons = []
      · have passes : Clean entry.2 := by rw [Clean, checked, clean]
        have present : barsOf entry.1 state.merged ≠ [] := by
          rw [merged.others entry.1 fresh]
          exact listed entry.1 anomalous
        obtain ⟨next, replacing, replaced⟩ :=
          replaceFirst_replaced (show (entry.2.fromSource source).date = entry.1 from dated) present
        rw [if_pos clean, replacing] at done
        rw [← done, if_pos ⟨anomalous, passes⟩]
        have passesToo : Clean (entry.2.fromSource source) := passes
        exact ⟨merged.replace fresh passesToo replaced, rfl⟩
      · have fails : ¬ Clean entry.2 := fun passes => clean (Except.ok.inj (checked.symm.trans passes))
        rw [if_neg clean] at done
        rw [← done, if_neg fun both => fails both.2, append_nil]
        exact ⟨merged, rfl⟩
  · rw [if_neg anomalous] at done
    obtain rfl := Except.ok.inj done
    rw [if_neg fun both => anomalous both.1, append_nil]
    exact ⟨merged, rfl⟩

theorem repairDates_merged (merged : Merged bars state.corrected state.merged)
    (listed : ∀ day ∈ anomalyDates, barsOf day bars ≠ []) (dated : ∀ entry ∈ entries, entry.2.date = entry.1)
    (distinct : (entries.map (·.1)).Nodup) (fresh : ∀ entry ∈ entries, entry.1 ∉ state.corrected)
    (done : repairDates source anomalyDates entries state = .ok repaired) :
    Merged bars repaired.corrected repaired.merged ∧ ∀ day, day ∈ repaired.corrected ↔
      day ∈ state.corrected ∨ day ∈ anomalyDates ∧ ∃ bar, (day, bar) ∈ entries ∧ Clean bar := by
  induction entries generalizing state with
  | nil =>
    obtain rfl := Except.ok.inj done
    exact ⟨merged, by simp⟩
  | cons entry rest ih =>
    obtain ⟨next, once, later⟩ := exists_of_bind_eq_ok done
    obtain ⟨datedFirst, datedRest⟩ := forall_mem_cons.mp dated
    obtain ⟨freshFirst, freshRest⟩ := forall_mem_cons.mp fresh
    obtain ⟨unlisted, distinct⟩ := nodup_cons.mp distinct
    obtain ⟨mergedNext, corrected⟩ := repairDate_merged merged listed datedFirst freshFirst once
    have apart : ∀ other ∈ rest, other.1 ∉ next.corrected := by
      intro other member
      have differs : other.1 ≠ entry.1 := by
        intro same
        exact unlisted (mem_map.mpr ⟨other, member, same⟩)
      rw [corrected]
      split
      · simpa [differs] using freshRest other member
      · simpa using freshRest other member
    obtain ⟨mergedLast, dates⟩ := ih mergedNext datedRest distinct apart later
    refine ⟨mergedLast, fun day => ?_⟩
    rw [dates, corrected, mem_append]
    obtain ⟨first, bar⟩ := entry
    simp only [mem_cons, Prod.mk.injEq]
    by_cases taken : first ∈ anomalyDates ∧ Clean bar
    · rw [if_pos taken, mem_singleton]
      constructor
      · rintro ((before | rfl) | ⟨anomalous, other, member, clean⟩)
        · exact .inl before
        · exact .inr ⟨taken.1, bar, .inl ⟨rfl, rfl⟩, taken.2⟩
        · exact .inr ⟨anomalous, other, .inr member, clean⟩
      · rintro (before | ⟨anomalous, other, ⟨same, -⟩ | member, clean⟩)
        · exact .inl (.inl before)
        · exact .inl (.inr same)
        · exact .inr ⟨anomalous, other, member, clean⟩
    · rw [if_neg taken]
      constructor
      · rintro ((before | none) | ⟨anomalous, other, member, clean⟩)
        · exact .inl before
        · cases none
        · exact .inr ⟨anomalous, other, .inr member, clean⟩
      · rintro (before | ⟨anomalous, other, ⟨rfl, rfl⟩ | member, clean⟩)
        · exact .inl (.inl before)
        · exact absurd ⟨anomalous, clean⟩ taken
        · exact .inr ⟨anomalous, other, member, clean⟩

theorem repairs_iff : repairs bars day = true ↔ ∃ bar, (day, bar) ∈ byKey (·.date) bars ∧ Clean bar := by
  have distinct := (Ledger.keys_byKey (·.date) bars).2
  unfold repairs
  rw [Option.any_eq_true]
  constructor
  · rintro ⟨bar, found, clean⟩
    exact ⟨bar, Ledger.mem_of_find found, of_decide_eq_true clean⟩
  · rintro ⟨bar, member, clean⟩
    exact ⟨bar, Ledger.find_of_mem distinct member, decide_eq_true clean⟩

theorem repairSources_merged {answers : Answers} {used : Option String} (merged : Merged bars [] state.merged)
    (nothing : state.corrected = []) (listed : ∀ day ∈ anomalyDates, barsOf day bars ≠ [])
    (done : repairSources primary anomalyDates answers state = .ok (repaired, used)) :
    Merged bars repaired.corrected repaired.merged ∧ ∀ day, day ∈ repaired.corrected ↔
      day ∈ anomalyDates ∧ ∃ alt ∈ firstRepairing primary anomalyDates answers, repairs alt day = true := by
  induction answers generalizing state with
  | nil =>
    obtain ⟨rfl, -⟩ := Prod.mk.inj (Except.ok.inj done)
    rw [nothing]
    exact ⟨merged, by simp [firstRepairing]⟩
  | cons first rest ih =>
    obtain ⟨source, answer⟩ := first
    unfold repairSources at done
    unfold firstRepairing
    by_cases own : source = primary
    · rw [if_pos own] at done ⊢
      exact ih merged nothing done
    · rw [if_neg own] at done ⊢
      cases answer with
      | none => exact ih merged nothing done
      | some alt =>
        obtain ⟨next, repairing, done⟩ := exists_of_bind_eq_ok done
        obtain ⟨keys, distinct⟩ := Ledger.keys_byKey (·.date) alt
        obtain ⟨mergedNext, dates⟩ := repairDates_merged (by rw [nothing]; exact merged) listed keys distinct
          (by simp [nothing]) repairing
        have corrected : ∀ day, day ∈ next.corrected ↔ day ∈ anomalyDates ∧ repairs alt day = true := by
          intro day
          rw [dates, nothing, repairs_iff]
          simp
        by_cases some_corrected : next.corrected ≠ []
        · rw [if_pos some_corrected] at done
          obtain ⟨rfl, -⟩ := Prod.mk.inj (Except.ok.inj done)
          obtain ⟨day, member⟩ := exists_mem_of_ne_nil _ some_corrected
          have any := any_eq_true.mpr ⟨day, (corrected day).mp member⟩
          simp only [any, if_true]
          exact ⟨mergedNext, fun day => by simp [corrected]⟩
        · rw [if_neg some_corrected] at done
          have none_corrected : next.corrected = [] := not_not.mp some_corrected
          have none_repaired : ¬ anomalyDates.any (repairs alt) = true := by
            intro any
            obtain ⟨day, member, repaired⟩ := any_eq_true.mp any
            have held := (corrected day).mpr ⟨member, repaired⟩
            rw [none_corrected] at held
            cases held
          rw [none_corrected] at mergedNext
          simp only [none_repaired]
          exact ih mergedNext none_corrected done

theorem mem_anomalyDates {symbol : String} {quality : BarQualityResult} (checked : check symbol bars = .ok quality) :
    day ∈ quality.anomalyDates ↔ ∃ bar ∈ barsOf day bars, ¬ Clean bar := by
  obtain ⟨anomalies, found, done⟩ := exists_of_bind_eq_ok checked
  obtain rfl := Except.ok.inj done
  change day ∈ anomalies.map (·.date) ↔ _
  clear checked done
  induction bars generalizing anomalies with
  | nil =>
    obtain rfl := Except.ok.inj found
    simp [barsOf]
  | cons bar rest ih =>
    obtain ⟨reasons, checkedBar, found⟩ := exists_of_bind_eq_ok found
    obtain ⟨later, foundLater, found⟩ := exists_of_bind_eq_ok found
    have rests := ih later foundLater
    obtain rfl := Except.ok.inj found
    by_cases clean : reasons = []
    · have passes : Clean bar := by rw [Clean, checkedBar, clean]
      rw [if_pos clean, rests]
      by_cases same : bar.date = day
      · simp [barsOf_cons_of_eq same, passes]
      · rw [barsOf_cons_of_ne same]
    · have fails : ¬ Clean bar := fun passes => clean (Except.ok.inj (checkedBar.symm.trans passes))
      rw [if_neg clean, map_cons, mem_cons, rests]
      by_cases same : bar.date = day
      · simp [barsOf_cons_of_eq same, fails, same]
      · simp [barsOf_cons_of_ne same, Ne.symm same]

end Loops

section Sound

variable {symbol primary : String} {answers : Answers} {primaryBars : List Bar} {quality : BarQualityResult}
  {result : FetchResult}

theorem crossValidate_merged (checked : check symbol primaryBars = .ok quality)
    (returned : crossValidate symbol primary answers primaryBars quality = .ok result) :
    Merged primaryBars result.correctedDates result.bars ∧
      (∀ day, day ∈ result.correctedDates ↔ day ∈ quality.anomalyDates ∧
        ∃ alt ∈ firstRepairing primary quality.anomalyDates answers, repairs alt day = true) ∧
      ∀ day, day ∈ result.quality.anomalyDates ↔ ∃ bar ∈ barsOf day result.bars, ¬ Clean bar := by
  obtain ⟨⟨repair, used⟩, repaired, returned⟩ := exists_of_bind_eq_ok returned
  obtain ⟨final, checkedFinal, returned⟩ := exists_of_bind_eq_ok returned
  obtain rfl := Except.ok.inj returned
  have unchanged : Merged primaryBars [] primaryBars :=
    ⟨by simp, fun _ _ => rfl, rfl, fun _ _ found _ => found⟩
  have listed : ∀ day ∈ quality.anomalyDates, barsOf day primaryBars ≠ [] := by
    intro day member
    obtain ⟨bar, held, -⟩ := (mem_anomalyDates checked).mp member
    exact ne_nil_of_mem held
  obtain ⟨merged, dates⟩ := repairSources_merged unchanged rfl listed repaired
  have same : ∀ day, day ∈ repair.corrected.insertionSort (· ≤ ·) ↔ day ∈ repair.corrected := fun day =>
    (perm_insertionSort _ _).mem_iff
  refine ⟨⟨?_, ?_, merged.length, ?_⟩, fun day => (same day).trans (dates day), fun day => mem_anomalyDates checkedFinal⟩
  · exact fun day member => merged.own day ((same day).mp member)
  · exact fun day absent => merged.others day fun held => absent ((same day).mpr held)
  · exact fun place bar found absent => merged.places place bar found fun held => absent ((same _).mpr held)

theorem offered_of_repairs {anomalyDates : List ℤ} {alt : List Bar} {day : ℤ}
    (first : alt ∈ firstRepairing primary anomalyDates answers) (repaired : repairs alt day = true) :
    Offered primary answers day := by
  induction answers with
  | nil => cases first
  | cons entry rest ih =>
    have behind : alt ∈ firstRepairing primary anomalyDates rest → Offered primary (entry :: rest) day := by
      intro later
      obtain ⟨source, bars, member, other⟩ := ih later
      exact ⟨source, bars, mem_cons_of_mem _ member, other⟩
    obtain ⟨source, answer⟩ := entry
    unfold firstRepairing at first
    by_cases own : source = primary
    · rw [if_pos own] at first
      exact behind first
    · rw [if_neg own] at first
      cases answer with
      | none => exact behind first
      | some bars =>
        by_cases any : anomalyDates.any (repairs bars) = true
        · simp only [any, if_true] at first
          obtain rfl := Option.some.inj first
          obtain ⟨bar, member, clean⟩ := repairs_iff.mp repaired
          have dated := (Ledger.keys_byKey (·.date) bars).1 _ member
          have given : bar ∈ bars := by
            have found := Ledger.find_of_mem (Ledger.keys_byKey (·.date) bars).2 member
            rw [Ledger.find_byKey] at found
            exact mem_reverse.mp (mem_of_find?_eq_some found)
          exact ⟨source, bars, mem_cons_self, own, bar, mem_filter.mpr ⟨given, by simpa using dated⟩, clean⟩
        · simp only [any] at first
          exact behind first

/-- A repair is sound exactly if every anomalous date that a fallback offers a clean bar for is repaired by the
first fallback that repairs any, and has no anomaly after its first bar. -/
theorem cross_validation_sound_iff (checked : check symbol primaryBars = .ok quality)
    (returned : crossValidate symbol primary answers primaryBars quality = .ok result) :
    SoundRepair primary answers primaryBars quality.anomalyDates result ↔
      ∀ day ∈ quality.anomalyDates, Offered primary answers day →
        (∃ alt ∈ firstRepairing primary quality.anomalyDates answers, repairs alt day = true) ∧
          LaterClean primaryBars day := by
  obtain ⟨merged, dates, remaining⟩ := crossValidate_merged checked returned
  constructor
  · intro sound day anomalous offered
    have corrected : day ∈ result.correctedDates := by
      by_contra uncorrected
      apply sound.exhausted day ?_ offered
      rw [remaining, merged.others day uncorrected]
      exact (mem_anomalyDates checked).mp anomalous
    obtain ⟨new, -, bars⟩ := merged.own day corrected
    refine ⟨((dates day).mp corrected).2, fun bar later => sound.corrected day corrected bar ?_⟩
    rw [bars]
    exact mem_cons_of_mem _ later
  · intro condition
    have clean : ∀ day ∈ result.correctedDates, ∀ bar ∈ barsOf day result.bars, Clean bar := by
      intro day corrected bar member
      obtain ⟨anomalous, alt, first, repaired⟩ := (dates day).mp corrected
      obtain ⟨new, passes, bars⟩ := merged.own day corrected
      rw [bars] at member
      rcases mem_cons.mp member with rfl | later
      · exact passes
      · exact (condition day anomalous (offered_of_repairs first repaired)).2 bar later
    refine ⟨clean, merged.length, ?_, ?_⟩
    · exact fun place bar found quiet => merged.places place bar found fun held => quiet ((dates _).mp held).1
    · intro day anomalous offered
      obtain ⟨bar, member, fails⟩ := (remaining day).mp anomalous
      have uncorrected : day ∉ result.correctedDates := fun held => fails (clean day held bar member)
      rw [merged.others day uncorrected] at member
      have before := (mem_anomalyDates checked).mpr ⟨bar, member, fails⟩
      exact uncorrected ((dates day).mpr ⟨before, (condition day before offered).1⟩)

end Sound

/-- A bar of a day that trades at ten, above a low. -/
def tenBar (day : ℤ) (low : ℚ) : Bar where
  symbol := "600000"
  period := "1d"
  timestamp := day * 86400000000
  «open» := .of 10
  high := .of 10
  low := .of low
  close := .of 10
  volume := .of 100
  amount := .of 1000
  source := ""

/-- Two days with a low below zero; one fallback has the first of them, another one both. -/
def twoDays : List Bar := [tenBar 1 (-1), tenBar 2 (-1)]

def twoAnswers : Answers :=
  [("akshare", some twoDays), ("baostock", some [tenBar 1 9]), ("tushare", some [tenBar 1 9, tenBar 2 9])]

def twoDaysQuality : BarQualityResult where
  symbol := "600000"
  totalBars := 2
  anomalies := [⟨1, "", ["low_non_positive"]⟩, ⟨2, "", ["low_non_positive"]⟩]
  duplicateCount := 0
  sources := []

def oneRepaired : FetchResult where
  symbol := "600000"
  bars := [(tenBar 1 9).fromSource "baostock", tenBar 2 (-1)]
  quality :=
    { symbol := "600000"
      totalBars := 2
      anomalies := [⟨2, "", ["low_non_positive"]⟩]
      duplicateCount := 0
      sources := ["baostock"] }
  primarySource := "akshare"
  fallbackUsed := true
  fallbackSource := some "baostock"
  correctedDates := [1]

theorem twoDays_checked : check "600000" twoDays = .ok twoDaysQuality := by decide +kernel

theorem twoDays_validated :
    crossValidate "600000" "akshare" twoAnswers twoDays twoDaysQuality = .ok oneRepaired := by decide +kernel

theorem cross_validation_sound_two_days :
    SoundRepair "akshare" twoAnswers twoDays twoDaysQuality.anomalyDates oneRepaired ↔
      ∀ day ∈ twoDaysQuality.anomalyDates, Offered "akshare" twoAnswers day →
        (∃ alt ∈ firstRepairing "akshare" twoDaysQuality.anomalyDates twoAnswers, repairs alt day = true) ∧
          LaterClean twoDays day :=
  cross_validation_sound_iff twoDays_checked twoDays_validated

/-- The second day stays anomalous, though a fallback has a clean bar for it. -/
theorem second_fallback_unused :
    ∃ quality result, check "600000" twoDays = .ok quality ∧
      crossValidate "600000" "akshare" twoAnswers twoDays quality = .ok result ∧
      ¬ SoundRepair "akshare" twoAnswers twoDays quality.anomalyDates result := by
  refine ⟨_, _, twoDays_checked, twoDays_validated, fun sound => ?_⟩
  apply sound.exhausted 2 (by decide)
  refine ⟨"tushare", [tenBar 1 9, tenBar 2 9], by simp [twoAnswers], by decide, tenBar 2 9, ?_, by decide +kernel⟩
  simp [barsOf, Bar.date, tenBar]

end FinDashboard.Quality
