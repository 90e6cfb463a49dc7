import FinDashboard.Runs.Fallible
import FinDashboard.Runs.SortedOn
import Mathlib.Algebra.Ring.Int.Defs

/-!
# Daily metrics, for each decision time or for all of them at once

A run reads the latest visible row of every symbol at each of its decision times. It may read the tables
once for each decision time, or once for all of them: the tables are then read without a bound on the
time, and the rows of all periods are selected and kept in slots.

Instants are microseconds since the epoch, dates are days since the epoch.
-/

namespace FinDashboard.Releases

open List

variable {F D : Type}

/-- The columns `_daily_metrics_from_release_row` takes as decimals. -/
def dailyMetricsFloatPayloadFields : List String :=
  ["close", "turnover_rate", "turnover_rate_free", "volume_ratio", "pe", "pe_ttm", "pb", "ps", "ps_ttm",
    "dividend_yield", "dividend_yield_ttm", "total_shares", "float_shares", "free_shares",
    "total_market_cap", "circulating_market_cap"]

/-- The physical type of a column of integers; a column of nothing but `None` is written as `null`. -/
inductive ColumnType where
  | int64
  | null
  deriving DecidableEq, Repr

/-- A row of a symbol's table. -/
structure DailyRow (F : Type) where
  availableAt : ℤ
  tradeDate : Option ℤ
  source : Option String := none
  payload : String → Option F := fun _ => none
  limitStatus : Option ℤ := none

structure DailyTable (F : Type) where
  rows : List (DailyRow F)
  limitType : ColumnType := .int64

/-- A frozen release: its range, the columns all of its tables have, and the tables; a symbol without
one raises `ReleaseCapabilityError`. -/
structure DailyRelease (F : Type) where
  startDate : ℤ
  endDate : ℤ
  columns : List String
  tables : String → Option (DailyTable F)

inductive ReadError where
  /-- a visible row without a date: `ReleaseIntegrityError` -/
  | missingTradeDate
  /-- a row is taken of a column without rows: `IndexError` -/
  | noRows
  /-- a zero is put for the nulls of a column of type `null`: `ArrowInvalid` -/
  | nullColumn
  /-- the first slot is looked at where there is none: `IndexError` -/
  | noPeriods
  deriving DecidableEq, Repr

/-- What a row says of a column; a column that was not frozen says nothing. -/
def DailyRow.cell (columns : List String) (row : DailyRow F) (name : String) : Option F :=
  if name ∈ columns then row.payload name else none

def visible (start endDate decisionAt : ℤ) (row : DailyRow F) : Bool :=
  decide (row.availableAt ≤ decisionAt) &&
    match row.tradeDate with
    | none => false
    | some day => decide (start ≤ day ∧ day ≤ endDate)

def readDailyMetricsColumns (rows : List (DailyRow F)) (start endDate decisionAt : ℤ) :
    Except ReadError (List (DailyRow F)) :=
  if ∃ row ∈ rows, row.availableAt ≤ decisionAt ∧ row.tradeDate = none then .error .missingTradeDate
  else .ok (rows.filter (visible start endDate decisionAt))

/-- A row as a dictionary, as far as the record is made of it. -/
structure ReleaseRow (F : Type) where
  availableAt : ℤ
  tradeDate : Option ℤ
  source : Option String
  limitStatus : Option ℤ
  get : String → Option F

/-- The record of a symbol; the payload is in the order of the columns' names. -/
structure DailySecurityMetrics (D : Type) where
  symbol : String
  tradeDate : ℤ
  payload : List (Option D)
  limitStatus : Option ℤ
  source : String
  observedAt : ℤ
  availableAt : ℤ
  deriving DecidableEq, Repr

/-- `_daily_metrics_from_release_row`; `coerceDecimal` is the decimal of a float's text. -/
def dailyMetricsFromReleaseRow (coerceDecimal : F → D) (symbol : String) (row : ReleaseRow F) :
    Except ReadError (DailySecurityMetrics D) :=
  match row.tradeDate with
  | none => .error .missingTradeDate
  | some day => .ok
    { symbol
      tradeDate := day
      payload := dailyMetricsFloatPayloadFields.map fun name => (row.get name).map coerceDecimal
      limitStatus := row.limitStatus
      source := row.source.getD ""
      observedAt := row.availableAt
      availableAt := row.availableAt }

/-- The integer column of a row; it reads as nothing where it was not frozen or holds nothing. -/
def DailyRow.limitCell (columns : List String) (limitType : ColumnType) (row : DailyRow F) : Option ℤ :=
  if "limit_status" ∈ columns ∧ limitType = .int64 then row.limitStatus else none

/-- A row of a table as a dictionary. -/
def DailyRow.toPylist (columns : List String) (limitType : ColumnType) (row : DailyRow F) :
    ReleaseRow F where
  availableAt := row.availableAt
  tradeDate := row.tradeDate
  source := row.source
  limitStatus := row.limitCell columns limitType
  get := row.cell columns

/-- `_latest_daily_metrics_row`: the last row with the greatest `available_at`. -/
def latestDailyMetricsRow (rows : List (DailyRow F)) : Option (DailyRow F) :=
  match (rows.map DailyRow.availableAt).max? with
  | none => none
  | some maxAvailable => rows[lastIndexWhere (fun row => row.availableAt = maxAvailable) rows]?

/-- What is found for a candidate: that its symbol is missing, no observation, or a record. -/
abbrev Finding (D : Type) : Type := Option (Option (DailySecurityMetrics D))

section Loading

variable (coerceDecimal : F → D) (dateOf : ℤ → ℤ) (release : DailyRelease F) (candidates : List String)

/-- A candidate at a decision time, from its table. -/
def latestFinding (decisionAt : ℤ) (symbol : String) : Except ReadError (Finding D) :=
  match release.tables symbol with
  | none => .ok none
  | some table => do
    let rows ← readDailyMetricsColumns table.rows release.startDate (dateOf decisionAt) decisionAt
    match latestDailyMetricsRow rows with
    | none => .ok (some none)
    | some row => do
      let latest ← dailyMetricsFromReleaseRow coerceDecimal symbol
        (row.toPylist release.columns table.limitType)
      .ok (some (some latest))

/-- The records and the missing symbols, in the order of the candidates. -/
def assemble (findings : List (Finding D)) : List (DailySecurityMetrics D) × List String :=
  (findings.filterMap Option.join,
    (candidates.zip findings).filterMap fun entry => if entry.2.isNone then some entry.1 else none)

def loadPeriod (decisionAt : ℤ) :
    Except ReadError (List (DailySecurityMetrics D) × List String) := do
  let findings ← collect (latestFinding coerceDecimal dateOf release decisionAt) candidates
  .ok (assemble candidates findings)

end Loading

/-- `_PIT_UNBOUNDED`: 9999-12-31 23:59:59. -/
def pitUnbounded : ℤ := 253402300799 * 1000000

/-- The date of a row as a number; no decision date reaches the number that stands for no date. -/
def DailyRow.dayNumber (row : DailyRow F) : ℤ := row.tradeDate.getD 2147483647

/-- The row is one of those a decision time may see. -/
def kept (start dayEnd decisionAt : ℤ) (row : DailyRow F) : Bool :=
  row.availableAt ≤ decisionAt ∧ start ≤ row.dayNumber ∧ row.dayNumber ≤ dayEnd

/-- The index of the last row with the greatest `available_at` among those kept. -/
def selectedIndex (rows : List (DailyRow F)) (start dayEnd decisionAt : ℤ) : Option ℕ :=
  match ((rows.filter (kept start dayEnd decisionAt)).map DailyRow.availableAt).max? with
  | none => none
  | some best => some (lastIndexWhere
      (fun row => kept start dayEnd decisionAt row && decide (row.availableAt = best)) rows)

def dailyMetricsLatestVisibleIndices (dateOf : ℤ → ℤ) (rows : List (DailyRow F)) (start : ℤ)
    (decisionAts : List ℤ) : Except ReadError (List (Option ℕ)) :=
  if rows.isEmpty ∨ decisionAts.isEmpty then .ok (decisionAts.map fun _ => none)
  else if ∃ row ∈ rows, row.tradeDate = none ∧ ∃ last ∈ decisionAts.max?, row.availableAt ≤ last then
    .error .missingTradeDate
  else .ok (decisionAts.map fun decisionAt => selectedIndex rows start (dateOf decisionAt) decisionAt)

/-- What is kept of a symbol for one period: a row of the slot's arrays. -/
structure PeriodRow (F : Type) where
  values : List F
  valid : List Bool
  limitStatus : ℤ := 0
  limitStatusValid : Bool := false
  tradeDateDays : ℤ := 0
  availableAt : Option ℤ := none
  source : Option String := none

variable {columns : List String}

section Precomputing

variable [Zero F]

/-- The columns of decimals a release has. -/
def floatColumns (columns : List String) : List String :=
  dailyMetricsFloatPayloadFields.filter fun name => name ∈ columns

/-- The place of a symbol before anything is put there. -/
def PeriodRow.empty (columns : List String) : PeriodRow F where
  values := (floatColumns columns).map fun _ => 0
  valid := (floatColumns columns).map fun _ => false

/-- The cells of the chosen row; of the row at the index zero where none was chosen. -/
def DailyRow.pick (columns : List String) (chosen : Bool) (row : DailyRow F) : PeriodRow F where
  values := (floatColumns columns).map fun name =>
    if chosen then (row.payload name).getD 0 else 0
  valid := (floatColumns columns).map fun name => chosen && (row.payload name).isSome
  limitStatus := if "limit_status" ∈ columns then row.limitStatus.getD 0 else 0
  limitStatusValid := decide ("limit_status" ∈ columns) && chosen && row.limitStatus.isSome
  tradeDateDays := row.tradeDate.getD 0
  availableAt := if chosen then some row.availableAt else none
  source := if chosen then row.source else none

/-- The row an index points to, or the one at the index zero. -/
def pickIndex (columns : List String) (rows : List (DailyRow F)) (index : Option ℕ) :
    Except ReadError (PeriodRow F) :=
  match rows[index.getD 0]? with
  | none => .error .noRows
  | some row => .ok (row.pick columns index.isSome)

/-- `_daily_history_from_table`: a row for each decision time. -/
def dailyHistoryFromTable (dateOf : ℤ → ℤ) (columns : List String) (limitType : ColumnType)
    (rows : List (DailyRow F)) (start : ℤ) (decisionAts : List ℤ) :
    Except ReadError (List (PeriodRow F)) := do
  let selected ← dailyMetricsLatestVisibleIndices dateOf rows start decisionAts
  let picked ← collect (pickIndex columns rows) selected
  if "limit_status" ∈ columns ∧ limitType = .null then .error .nullColumn
  else .ok picked

/-- `DailyMetricsPrecompute`; a slot is there once a symbol has been put into it. -/
structure DailyMetricsPrecompute (F : Type) where
  periodIndex : ℤ → Option ℕ
  slots : List (Option (List (PeriodRow F)))
  symbolRows : String → Option ℕ
  columns : List String

variable (coerceDecimal : F → D) (dateOf : ℤ → ℤ) (release : DailyRelease F) (candidates : List String)

/-- The history of a candidate; `none` for a missing symbol. -/
def candidateHistory (decisionAts : List ℤ) (symbol : String) :
    Except ReadError (Option (List (PeriodRow F))) :=
  match release.tables symbol with
  | none => .ok none
  | some table => do
    let rows ← readDailyMetricsColumns table.rows release.startDate release.endDate pitUnbounded
    let history ← dailyHistoryFromTable dateOf release.columns table.limitType rows release.startDate
      decisionAts
    if decisionAts.isEmpty then .error .noPeriods else .ok (some history)

def scatter (decisionAts : List ℤ) (histories : List (Option (List (PeriodRow F)))) :
    DailyMetricsPrecompute F where
  periodIndex decisionAt :=
    if decisionAt ∈ decisionAts then some (lastIndexWhere (fun time => time = decisionAt) decisionAts)
    else none
  slots := (range decisionAts.length).map fun period =>
    if histories.all Option.isNone then none
    else some (histories.map fun history =>
      (history.bind fun rows => rows[period]?).getD (.empty release.columns))
  symbolRows symbol :=
    if symbol ∈ candidates ∧ (release.tables symbol).isSome then
      some (lastIndexWhere (fun candidate => candidate = symbol) candidates)
    else none
  columns := floatColumns release.columns

def buildDailyMetricsPrecompute (decisionAts : List ℤ) :
    Except ReadError (DailyMetricsPrecompute F) := do
  let histories ← collect (candidateHistory dateOf release decisionAts) candidates
  .ok (scatter release candidates decisionAts histories)

/-- The row of a slot as a dictionary again. -/
def PeriodRow.toRow (columns : List String) (row : PeriodRow F) (availableAt : ℤ) : ReleaseRow F where
  availableAt := availableAt
  tradeDate := some row.tradeDateDays
  source := row.source
  limitStatus := if row.limitStatusValid then some row.limitStatus else none
  get := fun name =>
    ((columns.zip (row.values.zip row.valid)).lookup name).bind fun cell =>
      if cell.2 then some cell.1 else none

/-- What a slot says at the place of a symbol. -/
def PeriodRow.finding (coerceDecimal : F → D) (columns : List String) (symbol : String)
    (row : PeriodRow F) : Except ReadError (Finding D) :=
  match row.availableAt with
  | none => .ok (some none)
  | some available => do
    let latest ← dailyMetricsFromReleaseRow coerceDecimal symbol (row.toRow columns available)
    .ok (some (some latest))

def slotFinding (precompute : DailyMetricsPrecompute F) (slot : List (PeriodRow F)) (symbol : String) :
    Except ReadError (Finding D) :=
  match precompute.symbolRows symbol with
  | none => .ok none
  | some index =>
    match slot[index]? with
    | none => .error .noRows
    | some row => row.finding coerceDecimal precompute.columns symbol

/-- `_load_daily_metrics_features` up to the shared tail: from the slot of the decision time, if there is
one, and by reading the tables otherwise. -/
def loadFromPrecompute (precompute : DailyMetricsPrecompute F) (decisionAt : ℤ) :
    Except ReadError (List (DailySecurityMetrics D) × List String) :=
  match (precompute.periodIndex decisionAt).bind fun period => (precompute.slots[period]?).join with
  | some slot => do
    let findings ← collect (slotFinding coerceDecimal precompute slot) candidates
    .ok (assemble candidates findings)
  | none => loadPeriod coerceDecimal dateOf release candidates decisionAt

omit [Zero F] in
theorem lookup_zip {G : Type} (f : String → F) (g : String → G) (names : List String) (name : String) :
    (names.zip ((names.map f).zip (names.map g))).lookup name =
      if name ∈ names then some (f name, g name) else none := by
  induction names with
  | nil => rfl
  | cons first rest ih =>
    rw [map_cons, map_cons, zip_cons_cons, zip_cons_cons, lookup_cons, ih]
    by_cases same : name = first
    · simp [same]
    · simp [same, beq_eq_false_iff_ne.mpr same]

/-- The cells of the row that was chosen read back as they were. -/
theorem toRow_pick_get {row : DailyRow F} {name : String}
    (field : name ∈ dailyMetricsFloatPayloadFields) :
    ((row.pick columns true).toRow (floatColumns columns) row.availableAt).get name =
      row.cell columns name := by
  simp only [PeriodRow.toRow, DailyRow.pick, lookup_zip, DailyRow.cell, floatColumns, mem_filter,
    field, true_and, decide_eq_true_eq]
  by_cases frozen : name ∈ columns
  · cases row.payload name <;> simp [frozen]
  · simp [frozen]

/-- The record of the row that was chosen is the one of the row itself. -/
theorem dailyMetricsFromReleaseRow_pick {coerceDecimal : F → D} {symbol : String}
    {limitType : ColumnType} {row : DailyRow F} {day : ℤ}
    (dated : row.tradeDate = some day) (typed : "limit_status" ∈ columns → limitType ≠ .null) :
    dailyMetricsFromReleaseRow coerceDecimal symbol
        ((row.pick columns true).toRow (floatColumns columns) row.availableAt) =
      dailyMetricsFromReleaseRow coerceDecimal symbol (row.toPylist columns limitType) := by
  have payload : (dailyMetricsFloatPayloadFields.map fun name =>
        (((row.pick columns true).toRow (floatColumns columns) row.availableAt).get name).map
          coerceDecimal) =
      dailyMetricsFloatPayloadFields.map fun name => (row.cell columns name).map coerceDecimal :=
    map_congr_left fun name field => by rw [toRow_pick_get field]
  have limit : ((row.pick columns true).toRow (floatColumns columns) row.availableAt).limitStatus =
      row.limitCell columns limitType := by
    simp only [PeriodRow.toRow, DailyRow.pick, DailyRow.limitCell]
    by_cases frozen : "limit_status" ∈ columns
    · have integers : limitType = .int64 := by
        cases limitType with
        | int64 => rfl
        | null => exact absurd rfl (typed frozen)
      cases said : row.limitStatus <;> simp [frozen, integers]
    · simp [frozen]
  unfold dailyMetricsFromReleaseRow
  rw [payload, limit]
  simp [PeriodRow.toRow, DailyRow.pick, DailyRow.toPylist, dated]

end Precomputing

section Selecting

variable {rows seen : List (DailyRow F)} {row : DailyRow F} {start endDate dayEnd decisionAt : ℤ}

theorem visible_iff : visible start endDate decisionAt row = true ↔
    row.availableAt ≤ decisionAt ∧ ∃ day, row.tradeDate = some day ∧ start ≤ day ∧ day ≤ endDate := by
  unfold visible
  cases row.tradeDate <;> simp

theorem readDailyMetricsColumns_eq_ok : readDailyMetricsColumns rows start endDate decisionAt = .ok seen ↔
      (∀ row ∈ rows, row.availableAt ≤ decisionAt → row.tradeDate ≠ none) ∧
        seen = rows.filter (visible start endDate decisionAt) := by
  unfold readDailyMetricsColumns
  split
  · rename_i undated
    obtain ⟨row, member, early, none⟩ := undated
    constructor
    · nofun
    · exact fun ⟨dated, _⟩ => absurd none (dated row member early)
  · rename_i dated
    push Not at dated
    constructor
    · intro read
      exact ⟨dated, (Except.ok.inj read).symm⟩
    · rintro ⟨-, same⟩
      rw [same]

/-- Both selections take the last of the greatest. -/
theorem latestDailyMetricsRow_eq (rows : List (DailyRow F)) :
    latestDailyMetricsRow rows = latestOn DailyRow.availableAt rows := by
  unfold latestDailyMetricsRow
  cases found : (rows.map DailyRow.availableAt).max? with
  | none =>
    obtain rfl : rows = [] := map_eq_nil_iff.mp (max?_eq_none_iff.mp found)
    rfl
  | some maxAvailable => exact getElem?_lastIndexWhere_key found

/-- Of a table read without a bound, a decision time keeps the rows it would have read itself. -/
theorem filter_kept (within : dayEnd ≤ endDate)
    (bounded : ∀ row ∈ rows, visible start dayEnd decisionAt row = true →
      row.availableAt ≤ pitUnbounded) :
    (rows.filter (visible start endDate pitUnbounded)).filter (kept start dayEnd decisionAt) =
      rows.filter (visible start dayEnd decisionAt) := by
  rw [filter_filter]
  refine filter_congr fun row member => ?_
  rw [Bool.eq_iff_iff, Bool.and_eq_true, visible_iff, visible_iff, kept, decide_eq_true_eq]
  constructor
  · rintro ⟨⟨early, from_start, by_end⟩, -, day, dated, -, -⟩
    rw [DailyRow.dayNumber, dated] at from_start by_end
    exact ⟨early, day, dated, from_start, by_end⟩
  · intro seen
    have known := bounded row member (visible_iff.mpr seen)
    obtain ⟨early, day, dated, from_start, by_end⟩ := seen
    have number : row.dayNumber = day := by rw [DailyRow.dayNumber, dated]; rfl
    rw [number]
    exact ⟨⟨early, from_start, by_end⟩, known, day, dated, from_start, by_end.trans within⟩

theorem getElem?_selectedIndex {index : ℕ}
    (selected : selectedIndex rows start dayEnd decisionAt = some index) :
    rows[index]? = latestOn DailyRow.availableAt (rows.filter (kept start dayEnd decisionAt)) := by
  unfold selectedIndex at selected
  split at selected
  · cases selected
  · rename_i best found
    cases selected
    exact getElem?_lastIndexWhere_filter found

theorem selectedIndex_eq_none : selectedIndex rows start dayEnd decisionAt = none ↔
      rows.filter (kept start dayEnd decisionAt) = [] := by
  unfold selectedIndex
  split
  · rename_i found
    simpa using found
  · rename_i best found
    have some_row : rows.filter (kept start dayEnd decisionAt) ≠ [] := by
      intro nothing
      rw [nothing] at found
      cases found
    simp [some_row]

end Selecting

section Histories

variable [Zero F] {dateOf : ℤ → ℤ} {release : DailyRelease F} {table : DailyTable F} {symbol : String}
  {rows : List (DailyRow F)} {columns : List String} {start decisionAt : ℤ} {decisionAts : List ℤ}

/-- The table can be read without a bound, and every cell of it be taken. -/
structure TablePrepared (release : DailyRelease F) (decisionAts : List ℤ) (table : DailyTable F) :
    Prop where
  /-- every row that is ever visible has a date -/
  dated : ∀ row ∈ table.rows, row.availableAt ≤ pitUnbounded → row.tradeDate ≠ none
  /-- there is a row in the range of the release -/
  inRange : ∃ row ∈ table.rows,
    visible release.startDate release.endDate pitUnbounded row = true
  /-- the column of integers does not hold nothing but nulls of no type -/
  typed : "limit_status" ∈ release.columns → table.limitType ≠ .null
  /-- there is a decision time -/
  periods : decisionAts ≠ []

/-- What the unbounded read leaves of a table. -/
def gated (release : DailyRelease F) (table : DailyTable F) : List (DailyRow F) :=
  table.rows.filter (visible release.startDate release.endDate pitUnbounded)

def historyRow (dateOf : ℤ → ℤ) (columns : List String) (rows : List (DailyRow F)) (start decisionAt : ℤ) :
    PeriodRow F :=
  let index := selectedIndex rows start (dateOf decisionAt) decisionAt
  (rows[index.getD 0]?).elim (.empty columns) fun row => row.pick columns index.isSome

/-- An index that was selected points into the table; so does zero, if the table has a row. -/
theorem pickIndex_selectedIndex (some_row : rows ≠ []) :
    pickIndex columns rows (selectedIndex rows start (dateOf decisionAt) decisionAt) =
      .ok (historyRow dateOf columns rows start decisionAt) := by
  have inside : ∃ row,
      rows[(selectedIndex rows start (dateOf decisionAt) decisionAt).getD 0]? = some row := by
    cases selected : selectedIndex rows start (dateOf decisionAt) decisionAt with
    | none => exact ⟨_, List.getElem?_eq_getElem (length_pos_iff.mpr some_row)⟩
    | some index =>
      have latest := getElem?_selectedIndex selected
      have kept_row : rows.filter (kept start (dateOf decisionAt) decisionAt) ≠ [] := fun nothing => by
        rw [selectedIndex_eq_none.mpr nothing] at selected
        cases selected
      obtain ⟨row, member⟩ := exists_mem_of_ne_nil _ kept_row
      obtain ⟨chosen, found⟩ : ∃ chosen, latestOn DailyRow.availableAt
          (rows.filter (kept start (dateOf decisionAt) decisionAt)) = some chosen :=
        exists_latestOn member
      exact ⟨chosen, latest.trans found⟩
  obtain ⟨row, there⟩ := inside
  simp only [pickIndex, historyRow, there, Option.elim]

omit [Zero F] in
theorem dailyMetricsLatestVisibleIndices_eq (dated : ∀ row ∈ rows, row.tradeDate ≠ none)
    (some_row : rows ≠ []) : dailyMetricsLatestVisibleIndices dateOf rows start decisionAts =
      .ok (decisionAts.map fun decisionAt =>
        selectedIndex rows start (dateOf decisionAt) decisionAt) := by
  unfold dailyMetricsLatestVisibleIndices
  split
  · rename_i nothing
    have none_left : decisionAts = [] := by simpa [some_row] using nothing
    rw [none_left]
    rfl
  · rw [if_neg]
    rintro ⟨row, member, undated, -⟩
    exact dated row member undated

theorem candidateHistory_eq (found : release.tables symbol = some table)
    (prepared : TablePrepared release decisionAts table) :
    candidateHistory dateOf release decisionAts symbol = .ok (some (decisionAts.map
        (historyRow dateOf release.columns (gated release table) release.startDate))) := by
  have read : readDailyMetricsColumns table.rows release.startDate release.endDate pitUnbounded =
      .ok (gated release table) := readDailyMetricsColumns_eq_ok.mpr ⟨prepared.dated, rfl⟩
  obtain ⟨row, member, here⟩ := prepared.inRange
  have some_row := ne_nil_of_mem (mem_filter.mpr ⟨member, here⟩)
  have dated : ∀ row ∈ gated release table, row.tradeDate ≠ none := by
    intro row member
    obtain ⟨listed, seen⟩ := mem_filter.mp member
    exact prepared.dated row listed (visible_iff.mp seen).1
  have picked : collect (pickIndex release.columns (gated release table))
      (decisionAts.map fun decisionAt =>
        selectedIndex (gated release table) release.startDate (dateOf decisionAt) decisionAt) =
      .ok (decisionAts.map
        (historyRow dateOf release.columns (gated release table) release.startDate)) := by
    rw [collect_comp]
    exact collect_of_ok fun decisionAt _ => pickIndex_selectedIndex some_row
  have history : dailyHistoryFromTable dateOf release.columns table.limitType (gated release table)
      release.startDate decisionAts = .ok (decisionAts.map
        (historyRow dateOf release.columns (gated release table) release.startDate)) := by
    have untyped : ¬("limit_status" ∈ release.columns ∧ table.limitType = .null) :=
      fun ⟨frozen, null⟩ => prepared.typed frozen null
    unfold dailyHistoryFromTable
    rw [dailyMetricsLatestVisibleIndices_eq dated some_row]
    simp only [bind, Except.bind, picked, if_neg untyped]
  have some_period : decisionAts.isEmpty = false := by simpa using prepared.periods
  unfold candidateHistory
  rw [found]
  simp [read, history, some_period, bind, Except.bind]

theorem prepared_of_candidateHistory {history : Option (List (PeriodRow F))}
    (found : release.tables symbol = some table)
    (built : candidateHistory dateOf release decisionAts symbol = .ok history) :
    TablePrepared release decisionAts table := by
  unfold candidateHistory at built
  rw [found] at built
  obtain ⟨rows, read, built⟩ := bind_eq_ok.mp built
  obtain ⟨periods, taken, finished⟩ := bind_eq_ok.mp built
  obtain ⟨dated, rfl⟩ := readDailyMetricsColumns_eq_ok.mp read
  have some_period : decisionAts ≠ [] := by
    intro nothing
    simp [nothing] at finished
  obtain ⟨selected, located, taken⟩ := bind_eq_ok.mp taken
  obtain ⟨picked, collected, taken⟩ := bind_eq_ok.mp taken
  refine ⟨dated, ?_, ?_, some_period⟩
  · by_contra nothing
    push Not at nothing
    have empty : table.rows.filter
        (visible release.startDate release.endDate pitUnbounded) = [] :=
      filter_eq_nil_iff.mpr nothing
    rw [empty] at located collected
    cases located
    obtain ⟨decisionAt, member⟩ := exists_mem_of_ne_nil _ some_period
    obtain ⟨row, _, impossible⟩ :=
      exists_of_collect collected none (mem_map.mpr ⟨decisionAt, member, rfl⟩)
    cases impossible
  · intro frozen null
    rw [if_pos ⟨frozen, null⟩] at taken
    cases taken

theorem availableAt_historyRow {available : ℤ}
    (said : (historyRow dateOf columns (gated release table) start decisionAt).availableAt =
      some available) : available ≤ pitUnbounded := by
  unfold historyRow at said
  dsimp only at said
  cases there : (gated release table)[
      (selectedIndex (gated release table) start (dateOf decisionAt) decisionAt).getD 0]? with
  | none =>
    rw [there] at said
    cases said
  | some row =>
    rw [there, Option.elim_some, DailyRow.pick] at said
    dsimp only at said
    split_ifs at said
    cases said
    have member := mem_of_getElem? there
    exact (visible_iff.mp (mem_filter.mp member).2).1

end Histories

section Periods

variable [Zero F] {coerceDecimal : F → D} {dateOf : ℤ → ℤ} {release : DailyRelease F}
  {table : DailyTable F} {symbol : String} {decisionAt : ℤ} {decisionAts : List ℤ}

/-- A table that is prepared and shows no decision time more than the unbounded read. -/
structure TableReady (dateOf : ℤ → ℤ) (release : DailyRelease F) (decisionAts : List ℤ)
    (table : DailyTable F) : Prop extends TablePrepared release decisionAts table where
  bounded : ∀ decisionAt ∈ decisionAts, ∀ row ∈ table.rows,
    visible release.startDate (dateOf decisionAt) decisionAt row = true →
      row.availableAt ≤ pitUnbounded

theorem finding_historyRow (found : release.tables symbol = some table)
    (ready : TableReady dateOf release decisionAts table) (member : decisionAt ∈ decisionAts)
    (within : dateOf decisionAt ≤ release.endDate) {finding : Finding D}
    (reads : latestFinding coerceDecimal dateOf release decisionAt symbol = .ok finding) :
    (historyRow dateOf release.columns (gated release table) release.startDate decisionAt).finding
        coerceDecimal (floatColumns release.columns) symbol =
      latestFinding coerceDecimal dateOf release decisionAt symbol := by
  have kept_rows : (gated release table).filter
      (kept release.startDate (dateOf decisionAt) decisionAt) =
      table.rows.filter (visible release.startDate (dateOf decisionAt) decisionAt) :=
    filter_kept within (ready.bounded decisionAt member)
  unfold latestFinding at reads ⊢
  rw [found] at reads ⊢
  obtain ⟨rows, read, -⟩ := bind_eq_ok.mp reads
  have seen := (readDailyMetricsColumns_eq_ok.mp read).2
  simp only [read, bind, Except.bind, latestDailyMetricsRow_eq]
  cases selected : selectedIndex (gated release table) release.startDate (dateOf decisionAt)
      decisionAt with
  | none =>
    have nothing := selectedIndex_eq_none.mp selected
    rw [kept_rows, ← seen] at nothing
    have unseen : (historyRow dateOf release.columns (gated release table) release.startDate
        decisionAt).availableAt = none := by
      unfold historyRow
      dsimp only
      rw [selected]
      cases (gated release table)[(none : Option ℕ).getD 0]? <;> rfl
    rw [nothing, PeriodRow.finding, unseen]
    rfl
  | some index =>
    have latest := getElem?_selectedIndex selected
    rw [kept_rows, ← seen] at latest
    have some_row : rows ≠ [] := by
      intro nothing
      rw [seen, ← kept_rows] at nothing
      rw [selectedIndex_eq_none.mpr nothing] at selected
      cases selected
    obtain ⟨other, listed⟩ := exists_mem_of_ne_nil _ some_row
    obtain ⟨row, chosen⟩ : ∃ row, latestOn DailyRow.availableAt rows = some row :=
      exists_latestOn listed
    have here := (latestOn_spec chosen).1
    rw [seen] at here
    obtain ⟨_, day, dated, _⟩ := visible_iff.mp (mem_filter.mp here).2
    have picked : historyRow dateOf release.columns (gated release table) release.startDate
        decisionAt = row.pick release.columns true := by
      unfold historyRow
      dsimp only
      rw [selected, Option.getD_some, latest, chosen]
      rfl
    rw [chosen, picked, PeriodRow.finding]
    simp only [DailyRow.pick, if_true]
    change (do
      let latest ← dailyMetricsFromReleaseRow coerceDecimal symbol
        ((row.pick release.columns true).toRow (floatColumns release.columns) row.availableAt)
      Except.ok (some (some latest))) = _
    rw [dailyMetricsFromReleaseRow_pick dated ready.typed]
    rfl

omit [Zero F] in
theorem availableAt_of_dailyMetricsFromReleaseRow {row : ReleaseRow F} {record : DailySecurityMetrics D}
    (made : dailyMetricsFromReleaseRow coerceDecimal symbol row = .ok record) :
    record.availableAt = row.availableAt := by
  unfold dailyMetricsFromReleaseRow at made
  split at made
  · cases made
  · cases made
    rfl

omit [Zero F] in
theorem exists_late_finding {row : DailyRow F} {finding : Finding D}
    (found : release.tables symbol = some table) (listed : row ∈ table.rows)
    (seen : visible release.startDate (dateOf decisionAt) decisionAt row = true)
    (reads : latestFinding coerceDecimal dateOf release decisionAt symbol = .ok finding) :
    ∃ record, finding = some (some record) ∧ row.availableAt ≤ record.availableAt := by
  unfold latestFinding at reads
  rw [found] at reads
  obtain ⟨rows, read, reads⟩ := bind_eq_ok.mp reads
  obtain ⟨-, rfl⟩ := readDailyMetricsColumns_eq_ok.mp read
  have member := mem_filter.mpr ⟨listed, seen⟩
  obtain ⟨latest, chosen⟩ : ∃ latest, latestOn DailyRow.availableAt
      (table.rows.filter (visible release.startDate (dateOf decisionAt) decisionAt)) = some latest :=
    exists_latestOn member
  rw [latestDailyMetricsRow_eq, chosen] at reads
  obtain ⟨record, made, rest⟩ := bind_eq_ok.mp reads
  cases rest
  refine ⟨record, rfl, ?_⟩
  rw [availableAt_of_dailyMetricsFromReleaseRow made]
  exact (latestOn_spec chosen).2 row member

omit [Zero F] in
/-- A record found at a place of a slot is as late as the place says. -/
theorem PeriodRow.availableAt_of_finding {row : PeriodRow F} {record : DailySecurityMetrics D}
    (found : row.finding coerceDecimal columns symbol = .ok (some (some record))) :
    row.availableAt = some record.availableAt := by
  unfold PeriodRow.finding at found
  split at found
  · cases found
  · rename_i available said
    obtain ⟨latest, made, rest⟩ := bind_eq_ok.mp found
    cases rest
    rw [said, availableAt_of_dailyMetricsFromReleaseRow made]
    rfl

end Periods

section Releases

variable [Zero F] {coerceDecimal : F → D} {dateOf : ℤ → ℤ} {release : DailyRelease F}
  {candidates : List String} {decisionAts : List ℤ} {decisionAt : ℤ}
  {histories : List (Option (List (PeriodRow F)))}

def slotOf (release : DailyRelease F) (histories : List (Option (List (PeriodRow F)))) (period : ℕ) :
    List (PeriodRow F) :=
  histories.map fun history =>
    (history.bind fun rows => rows[period]?).getD (.empty release.columns)

theorem slot_scatter (release : DailyRelease F) (candidates : List String)
    (histories : List (Option (List (PeriodRow F)))) (member : decisionAt ∈ decisionAts) :
    ∃ period, decisionAts[period]? = some decisionAt ∧
      (((scatter release candidates decisionAts histories).periodIndex decisionAt).bind fun period =>
        ((scatter release candidates decisionAts histories).slots[period]?).join) =
        if histories.all Option.isNone then none else some (slotOf release histories period) := by
  have there := getElem?_lastIndexWhere_eq member
  refine ⟨_, there, ?_⟩
  obtain ⟨inside, -⟩ := List.getElem?_eq_some_iff.mp there
  simp only [scatter, member, if_true, Option.bind_some, List.getElem?_map,
    List.getElem?_range inside, Option.map_some, Option.join_some]
  rfl

theorem slotFinding_scatter {h : String → Option (List (PeriodRow F))} {symbol : String} {period : ℕ}
    (member : symbol ∈ candidates) {table : DailyTable F} (found : release.tables symbol = some table) :
    slotFinding coerceDecimal (scatter release candidates decisionAts (candidates.map h))
        (slotOf release (candidates.map h) period) symbol =
      (((h symbol).bind fun rows => rows[period]?).getD (.empty release.columns)).finding coerceDecimal
        (floatColumns release.columns) symbol := by
  have there := getElem?_lastIndexWhere_eq member
  unfold slotFinding
  simp only [scatter, member, found, Option.isSome_some, and_self, if_true, slotOf, List.getElem?_map,
    there, Option.map_some]

def historyOf (dateOf : ℤ → ℤ) (release : DailyRelease F) (decisionAts : List ℤ) (symbol : String) :
    Option (List (PeriodRow F)) :=
  (release.tables symbol).map fun table =>
    decisionAts.map (historyRow dateOf release.columns (gated release table) release.startDate)

/-- Tables that are ready are precomputed, and every decision time reads the same of the slots. -/
theorem loadFromPrecompute_eq
    (ready : ∀ symbol ∈ candidates, ∀ table, release.tables symbol = some table →
      TableReady dateOf release decisionAts table) (member : decisionAt ∈ decisionAts)
    (within : dateOf decisionAt ≤ release.endDate) {out : List (DailySecurityMetrics D) × List String}
    (reads : loadPeriod coerceDecimal dateOf release candidates decisionAt = .ok out) :
    loadFromPrecompute coerceDecimal dateOf release candidates
        (scatter release candidates decisionAts (candidates.map (historyOf dateOf release decisionAts)))
        decisionAt = loadPeriod coerceDecimal dateOf release candidates decisionAt := by
  obtain ⟨period, there, slot⟩ := slot_scatter release candidates
    (candidates.map (historyOf dateOf release decisionAts)) member
  unfold loadFromPrecompute
  rw [slot]
  split_ifs
  · rfl
  · obtain ⟨findings, collected, -⟩ := bind_eq_ok.mp reads
    have same : ∀ symbol ∈ candidates,
        slotFinding coerceDecimal (scatter release candidates decisionAts
            (candidates.map (historyOf dateOf release decisionAts)))
          (slotOf release (candidates.map (historyOf dateOf release decisionAts)) period) symbol =
        latestFinding coerceDecimal dateOf release decisionAt symbol := by
      intro symbol listed
      cases found : release.tables symbol with
      | none => simp [slotFinding, scatter, found, latestFinding]
      | some table =>
        obtain ⟨finding, _, own⟩ := exists_of_collect collected symbol listed
        rw [slotFinding_scatter listed found, historyOf, found, Option.map_some, Option.bind_some,
          List.getElem?_map, there, Option.map_some, Option.getD_some]
        exact finding_historyRow found (ready symbol listed table found) member within own
    dsimp only
    rw [collect_congr same]
    rfl

theorem availableAt_slotOf {period : ℕ} {row : PeriodRow F} {available : ℤ}
    (collected : collect (candidateHistory dateOf release decisionAts) candidates = .ok histories)
    (placed : row ∈ slotOf release histories period) (said : row.availableAt = some available) :
    available ≤ pitUnbounded := by
  obtain ⟨history, inside, rfl⟩ := mem_map.mp placed
  obtain ⟨symbol, _, own⟩ := collect_mem collected history inside
  cases found : release.tables symbol with
  | none =>
    rw [candidateHistory, found] at own
    cases own
    cases said
  | some table =>
    have prepared := prepared_of_candidateHistory found own
    rw [candidateHistory_eq found prepared] at own
    cases own
    rw [Option.bind_some, List.getElem?_map] at said
    cases there : decisionAts[period]? with
    | none =>
      rw [there] at said
      cases said
    | some decisionAt =>
      rw [there] at said
      exact availableAt_historyRow said

/-- No record that comes out of a slot is later than the unbounded read. -/
theorem availableAt_loadFromPrecompute {out : List (DailySecurityMetrics D) × List String}
    {symbol : String} {table : DailyTable F}
    (collected : collect (candidateHistory dateOf release decisionAts) candidates = .ok histories)
    (listed : symbol ∈ candidates) (found : release.tables symbol = some table)
    (member : decisionAt ∈ decisionAts)
    (reads : loadFromPrecompute coerceDecimal dateOf release candidates
      (scatter release candidates decisionAts histories) decisionAt = .ok out) :
    ∀ record ∈ out.1, record.availableAt ≤ pitUnbounded := by
  obtain ⟨period, there, slot⟩ := slot_scatter release candidates histories member
  have allocated : histories.all Option.isNone = false := by
    obtain ⟨history, inside, own⟩ := exists_of_collect collected symbol listed
    have prepared := prepared_of_candidateHistory found own
    rw [candidateHistory_eq found prepared] at own
    cases own
    exact all_eq_false.mpr ⟨_, inside, by simp⟩
  unfold loadFromPrecompute at reads
  rw [slot, allocated] at reads
  obtain ⟨findings, gathered, reads⟩ := bind_eq_ok.mp reads
  cases reads
  intro record inside
  obtain ⟨finding, some_record, joined⟩ := mem_filterMap.mp inside
  obtain rfl := Option.join_eq_some_iff.mp joined
  obtain ⟨other, _, slotted⟩ := collect_mem gathered _ some_record
  unfold slotFinding at slotted
  split at slotted
  · cases slotted
  · split at slotted
    · cases slotted
    · rename_i row placed
      exact availableAt_slotOf collected (mem_of_getElem? placed)
        (PeriodRow.availableAt_of_finding slotted)

/-- The precomputation succeeds and every decision time reads the same of it, exactly if the tables are
ready. -/
theorem precompute_iff (within : ∀ decisionAt ∈ decisionAts, dateOf decisionAt ≤ release.endDate)
    (succeeds : ∀ decisionAt ∈ decisionAts, ∃ out,
      loadPeriod coerceDecimal dateOf release candidates decisionAt = .ok out) :
    (∃ precompute, buildDailyMetricsPrecompute dateOf release candidates decisionAts =
        .ok precompute ∧ ∀ decisionAt ∈ decisionAts,
      loadFromPrecompute coerceDecimal dateOf release candidates precompute decisionAt =
        loadPeriod coerceDecimal dateOf release candidates decisionAt) ↔
      ∀ symbol ∈ candidates, ∀ table, release.tables symbol = some table →
        TableReady dateOf release decisionAts table := by
  constructor
  · rintro ⟨precompute, built, same⟩ symbol listed table found
    obtain ⟨histories, collected, scattered⟩ := bind_eq_ok.mp built
    cases scattered
    obtain ⟨history, _, own⟩ := exists_of_collect collected symbol listed
    refine ⟨prepared_of_candidateHistory found own, fun decisionAt member row here seen => ?_⟩
    obtain ⟨out, reads⟩ := succeeds decisionAt member
    have early := availableAt_loadFromPrecompute collected listed found member
      ((same decisionAt member).trans reads)
    obtain ⟨findings, gathered, assembled⟩ := bind_eq_ok.mp reads
    cases assembled
    obtain ⟨finding, inside, mine⟩ := exists_of_collect gathered symbol listed
    obtain ⟨record, rfl, late⟩ := exists_late_finding found here seen mine
    exact late.trans (early record (mem_filterMap.mpr ⟨_, inside, rfl⟩))
  · intro ready
    have each : ∀ symbol ∈ candidates, candidateHistory dateOf release decisionAts symbol =
        .ok (historyOf dateOf release decisionAts symbol) := by
      intro symbol listed
      cases found : release.tables symbol with
      | none => simp [candidateHistory, historyOf, found]
      | some table =>
        rw [candidateHistory_eq found (ready symbol listed table found).toTablePrepared, historyOf,
          found, Option.map_some]
    refine ⟨scatter release candidates decisionAts
      (candidates.map (historyOf dateOf release decisionAts)), ?_, fun decisionAt member => ?_⟩
    · unfold buildDailyMetricsPrecompute
      rw [collect_of_ok each]
      rfl
    · obtain ⟨out, reads⟩ := succeeds decisionAt member
      exact loadFromPrecompute_eq ready member (within decisionAt member) reads

end Releases

namespace January

def instant (day hour : ℤ) : ℤ := (day * 24 + hour) * 3600000000

def dateOf (decisionAt : ℤ) : ℤ := decisionAt / 86400000000

def release (rows : List (DailyRow ℤ)) : DailyRelease ℤ where
  startDate := 19723
  endDate := 19753
  columns := ["pb", "limit_status"]
  tables symbol := if symbol = "600000" then some { rows } else none

/-- Two rows become available at once; the later one says nothing of `pb`. -/
def tied : List (DailyRow ℤ) :=
  [{ availableAt := instant 19724 7, tradeDate := some 19724, payload := fun _ => some 12 },
    { availableAt := instant 19724 7, tradeDate := some 19723, limitStatus := some 1 }]

def earlier : List (DailyRow ℤ) := [{ availableAt := instant 19700 7, tradeDate := some 19700 }]

end January

/-- Of two rows available at once the last is taken, and a symbol without a table is missing. -/
theorem precompute_iff_tied :
    (∃ precompute, buildDailyMetricsPrecompute January.dateOf (January.release January.tied)
        ["600000", "000001"] [January.instant 19723 15, January.instant 19724 15] = .ok precompute ∧
      ∀ decisionAt ∈ [January.instant 19723 15, January.instant 19724 15],
        loadFromPrecompute id January.dateOf (January.release January.tied) ["600000", "000001"]
            precompute decisionAt =
          loadPeriod id January.dateOf (January.release January.tied) ["600000", "000001"]
            decisionAt) ∧
      loadPeriod id January.dateOf (January.release January.tied) ["600000", "000001"]
          (January.instant 19724 15) =
        .ok ([⟨"600000", 19723, replicate 16 none, some 1, "", January.instant 19724 7,
          January.instant 19724 7⟩], ["000001"]) := by
  refine ⟨(precompute_iff (by decide) ?_).mpr ?_, rfl⟩
  · intro decisionAt member
    simp only [mem_cons, not_mem_nil, or_false] at member
    rcases member with rfl | rfl <;> exact ⟨_, rfl⟩
  · intro symbol listed table found
    simp only [mem_cons, not_mem_nil, or_false] at listed
    rcases listed with rfl | rfl
    · cases found
      exact
        { dated := by decide
          inRange := by decide
          typed := by decide
          periods := by decide
          bounded := by decide }
    · cases found

/-- A symbol without a row in the range has no observation, but the precomputation of the release fails. -/
theorem precompute_fails :
    loadPeriod id January.dateOf (January.release January.earlier) ["600000"]
        (January.instant 19724 15) = .ok ([], []) ∧
      ¬∃ precompute, buildDailyMetricsPrecompute January.dateOf (January.release January.earlier)
        ["600000"] [January.instant 19724 15] = .ok precompute := by
  refine ⟨rfl, fun ⟨precompute, built⟩ => ?_⟩
  have failed : buildDailyMetricsPrecompute January.dateOf (January.release January.earlier)
      ["600000"] [January.instant 19724 15] = .error .noRows := rfl
  rw [failed] at built
  cases built

end FinDashboard.Releases
