import FinDashboard.Ledger.KeyedMerge
import FinDashboard.Shared.Calendar
import FinDashboard.Tushare.Bars
import Mathlib.Data.List.Dedup

/-!
# The bar cache of a symbol

The cache keeps the fetched bars of a symbol in a file, and beside it the ranges it knows to be
queried: the recorded ones, and the span from the first to the last cached bar. A call fetches the
missing ranges only.
-/

namespace FinDashboard.Tushare

open FinDashboard.Ledger (assign find)

structure CacheMetadata where
  firstDate : Option ℤ
  lastDate : Option ℤ
  source : Option String
  coveredRanges : List DateRange
deriving DecidableEq, Repr

/-- The bars of the file and the metadata of its sidecar. -/
structure CacheFile where
  bars : List Bar
  sidecar : CacheMetadata
deriving DecidableEq, Repr

/-- The span from the first to the last bar. -/
def CacheMetadata.span (metadata : CacheMetadata) : List DateRange :=
  match metadata.firstDate, metadata.lastDate with
  | some first, some last => [(first, last)]
  | _, _ => []

def CacheMetadata.covers (metadata : CacheMetadata) (start last : ℤ) : Bool :=
  last < start ||
    (coalesceDateRanges (metadata.coveredRanges ++ metadata.span)).any fun range =>
      range.1 ≤ start && last ≤ range.2

/-- `_read_metadata_sidecar`. -/
def CacheFile.metadata (file : CacheFile) : CacheMetadata :=
  { file.sidecar with coveredRanges := coalesceDateRanges file.sidecar.coveredRanges }

def sourceOf (bars : List Bar) : Option String :=
  match ((bars.map (·.source)).filter fun source => source ≠ "").dedup with
  | [] => none
  | [source] => some source
  | _ => some "mixed"

/-- `_write_sync`: the recorded ranges of another source are forgotten. -/
def writeFile (previous : Option CacheMetadata) (bars : List Bar)
    (coveredRanges : List DateRange) : CacheFile :=
  let retained := match previous with
    | some metadata => if metadata.source = sourceOf bars then metadata.coveredRanges else []
    | none => []
  { bars := bars
    sidecar := {
      firstDate := bars.head?.map (·.date)
      lastDate := bars.getLast?.map (·.date)
      source := sourceOf bars
      coveredRanges := coalesceDateRanges (retained ++ coveredRanges) } }

/-- The bars by date; a later bar replaces an earlier one of its date. -/
def barsByDate (bars : List Bar) : List (ℤ × Bar) :=
  bars.foldl (fun merged bar => assign bar.date bar merged) []

def mergeBars (existing new : List Bar) : List Bar :=
  sortBars ((barsByDate (existing ++ new)).map (·.2))

/-- `ParquetCache.merge`; an empty list is not written. -/
def merge (file : Option CacheFile) (new existing : List Bar) (coveredRanges : List DateRange) :
    Option CacheFile × List Bar :=
  let bars := mergeBars existing new
  (if bars = [] then file else some (writeFile (file.map (·.metadata)) bars coveredRanges), bars)

def markCovered (file : Option CacheFile) (range : DateRange) (source : String) : Option CacheFile :=
  if range.2 < range.1 then file
  else match file with
    | none => none
    | some cached =>
      if cached.metadata.source = some source then
        some { cached with sidecar := { cached.metadata with
          coveredRanges := coalesceDateRanges (cached.metadata.coveredRanges ++ [range]) } }
      else file

/-- Step back to a day of the week other than Saturday and Sunday. -/
def lastWeekday (date : ℤ) : ℤ :=
  if 5 ≤ weekday date then if 5 ≤ weekday (date - 1) then date - 2 else date - 1 else date

def expectedLastBarDate (last today : ℤ) (hour : ℕ) : ℤ :=
  let expected := lastWeekday (min last today)
  if expected = today ∧ today ≤ last ∧ hour < 21 then lastWeekday (expected - 1) else expected

def isForeignCache (metadata : CacheMetadata) : Bool :=
  metadata.source ≠ none && metadata.source ≠ some "tushare"

def cacheFetchRanges (metadata : Option CacheMetadata) (start effectiveEnd : ℤ) : List DateRange :=
  if effectiveEnd < start then []
  else match metadata with
    | none => [(start, effectiveEnd)]
    | some metadata =>
      if metadata.source ≠ some "tushare" then
        if isForeignCache metadata && metadata.covers start effectiveEnd then []
        else [(start, effectiveEnd)]
      else if metadata.covers start effectiveEnd then []
      else
        (missingRanges effectiveEnd start
          (sortRanges (metadata.coveredRanges ++ metadata.span))).filter fun range =>
            range.1 ≤ range.2

/-- The cache file, and every date range sent to the remote source. -/
structure CacheState where
  file : Option CacheFile
  sent : List DateRange
deriving DecidableEq, Repr

def CacheState.start : CacheState := { file := none, sent := [] }

def CacheState.bars (st : CacheState) : List Bar :=
  match st.file with
  | some file => file.bars
  | none => []

/-- The loop of `_fetch_and_persist_ranges`. -/
def persistRanges (history : History) (kind : SymbolKind) (adjust : Adjust) (st : CacheState)
    (current : List Bar) : List DateRange → CacheState × Except ProviderError (List Bar)
  | [] => (st, .ok current)
  | range :: rest =>
    let sent := st.sent ++ requests kind range
    match fetchRange history kind adjust range with
    | .error error => ({ st with sent := sent }, .error error)
    | .ok bars =>
      if bars ≠ [] then
        let merged := merge st.file bars current [range]
        persistRanges history kind adjust { file := merged.1, sent := sent } merged.2 rest
      else if current ≠ [] then
        persistRanges history kind adjust
          { file := markCovered st.file range "tushare", sent := sent } current rest
      else persistRanges history kind adjust { st with sent := sent } current rest

/-- Bars of another source are dropped, unless nothing was fetched. -/
def fetchAndPersistRanges (history : History) (kind : SymbolKind) (adjust : Adjust) (st : CacheState)
    (ranges : List DateRange) (cached : List Bar) : CacheState × Except ProviderError (List Bar) :=
  let foreign := cached.any fun bar => bar.source ≠ "tushare"
  let fetched :=
    persistRanges history kind adjust st (if foreign then [] else cached) ranges
  (fetched.1, fetched.2.map fun current => if current = [] ∧ foreign then cached else current)

/-- The range a caller asks for, and the clock of the call. -/
structure Request where
  start : ℤ
  last : ℤ
  today : ℤ
  hour : ℕ
deriving DecidableEq, Repr

def Request.effectiveEnd (request : Request) : ℤ :=
  expectedLastBarDate request.last request.today request.hour

def Request.fetchRanges (request : Request) (st : CacheState) : List DateRange :=
  cacheFetchRanges (st.file.map (·.metadata)) request.start request.effectiveEnd

def filterByDate (bars : List Bar) (start last : ℤ) : List Bar :=
  bars.filter fun bar => start ≤ bar.date ∧ bar.date ≤ last

def fetchBars (history : History) (kind : SymbolKind) (adjust : Adjust) (st : CacheState)
    (request : Request) : CacheState × Except ProviderError (List Bar) :=
  let ranges := request.fetchRanges st
  if ranges = [] then (st, .ok (filterByDate st.bars request.start request.last))
  else
    let fetched := fetchAndPersistRanges history kind adjust st ranges st.bars
    (fetched.1, fetched.2.map fun bars => filterByDate bars request.start request.last)

def updateCache (history : History) (kind : SymbolKind) (adjust : Adjust) (st : CacheState)
    (request : Request) : CacheState × Except ProviderError Bool :=
  let ranges := request.fetchRanges st
  if ranges = [] then (st, .ok true)
  else
    let fetched := fetchAndPersistRanges history kind adjust st ranges st.bars
    (fetched.1, fetched.2.map fun current => current ≠ [])

inductive ProviderCall
  | fetchBars (request : Request)
  | updateCache (request : Request)
deriving DecidableEq, Repr

def ProviderCall.request : ProviderCall → Request
  | .fetchBars request | .updateCache request => request

def ProviderCall.perform (history : History) (kind : SymbolKind) (adjust : Adjust)
    (st : CacheState) : ProviderCall → CacheState
  | .fetchBars request => (Tushare.fetchBars history kind adjust st request).1
  | .updateCache request => (Tushare.updateCache history kind adjust st request).1

variable {existing new : List Bar} {bar : Bar}

theorem mem_of_mem_mergeBars (member : bar ∈ mergeBars existing new) : bar ∈ existing ∨ bar ∈ new :=
  Ledger.mem_of_mem_mergeRows member

theorem mem_mergeBars_of_only (member : bar ∈ existing ∨ bar ∈ new)
    (only : ∀ b, b ∈ existing ∨ b ∈ new → b.date = bar.date → b = bar) : bar ∈ mergeBars existing new :=
  Ledger.mem_mergeRows_of_only member only

theorem date_mergeBars (existing : List Bar) {new : List Bar} (member : bar ∈ existing ∨ bar ∈ new) :
    ∃ b ∈ mergeBars existing new, b.date = bar.date :=
  Ledger.key_mergeRows member

theorem last_mergeBars {bar other : Bar} (member : bar ∈ mergeBars existing new) (given : other ∈ new)
    (same : other.date = bar.date) : bar ∈ new :=
  Ledger.last_mergeRows member given same

theorem mem_mergeBars_of_new (given : bar ∈ new)
    (only : ∀ b ∈ new, b.date = bar.date → b = bar) : bar ∈ mergeBars existing new :=
  Ledger.mem_mergeRows_of_new given only

theorem dates_mergeBars : (mergeBars existing new).Pairwise fun a b => a.date ≤ b.date :=
  Ledger.sorted_mergeRows _ existing new

end FinDashboard.Tushare
