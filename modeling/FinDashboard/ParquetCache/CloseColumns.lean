import FinDashboard.ParquetCache.Merges
import FinDashboard.Runs.SortedOn

/-!
# Close prices in columns

The closes of a daily file are read row by row, or in columns. The rows are times and decimals; the columns
keep the unit in which the file gives its times, where they have no zone, and take it for microseconds.
-/

namespace FinDashboard.ParquetCache

open List SeriesKey

/-- The units of time of a file. -/
inductive TimeUnit
  | ms
  | us
  | ns
deriving DecidableEq, Repr

def TimeUnit.hour : TimeUnit → ℤ
  | .ms => 3600000
  | .us => 3600000000
  | .ns => 3600000000000

def TimeUnit.day (unit : TimeUnit) : ℤ := 24 * unit.hour

/-- The columns `timestamp`, since the epoch in UTC, and `close`. -/
structure CloseTable (F : Type) where
  unit : TimeUnit
  zoned : Bool
  rows : List (ℤ × Option F)

/-- The rows whose close is not null. -/
def CloseTable.valid {F : Type} (table : CloseTable F) : List (ℤ × F) :=
  table.rows.filterMap fun row => row.2.map fun close => (row.1, close)

section Rows

variable {F D : Type}

/-- The time of a row in microseconds. Nanoseconds play no part in its date and hour. -/
def TimeUnit.micros (unit : TimeUnit) (timestamp : ℤ) : ℤ :=
  match unit with
  | .ms => timestamp * 1000
  | .us => timestamp
  | .ns => timestamp / 1000

/-- Whether a date is from `start` to `stop`, where these are given. -/
def inWindow (start stop : Option ℤ) (date : ℤ) : Bool :=
  !(start.any fun start => date < start) && !(stop.any fun stop => stop < date)

/-- The body of the loop over the rows; `toDecimal` stands for `Decimal(str(close))`. -/
def closePoint (key : SeriesKey) (toDecimal : F → D) (unit : TimeUnit) (start stop : Option ℤ)
    (row : ℤ × Option F) : Option (ℤ × D) :=
  let timestamp := key.normalise (unit.micros row.1)
  if inWindow start stop (dateOf timestamp) then row.2.map fun close => (timestamp, toDecimal close) else none

def readClosePointsSync (key : SeriesKey) (toDecimal : F → D) (table : CloseTable F) (start stop : Option ℤ) :
    List (ℤ × D) :=
  sortedOn (·.1) (table.rows.filterMap (closePoint key toDecimal table.unit start stop))

end Rows

inductive ColumnError
  | notDaily
  /-- A time is no whole number of microseconds. -/
  | lossyCast
deriving DecidableEq, Repr

def castMicros (unit : TimeUnit) (times : List ℤ) : Except ColumnError (List ℤ) :=
  match unit with
  | .ms => .ok (times.map (· * 1000))
  | .us => .ok times
  | .ns => if times.all (· % 1000 = 0) then .ok (times.map (· / 1000)) else .error .lossyCast

def TimeUnit.finer : TimeUnit → TimeUnit
  | .ms => .us
  | .us => .us
  | .ns => .ns

def TimeUnit.refine (unit : TimeUnit) (timestamp : ℤ) : ℤ :=
  match unit with
  | .ms => timestamp * 1000
  | .us => timestamp
  | .ns => timestamp

def addEightHours (unit : TimeUnit) (timestamp : ℤ) : ℤ :=
  if timestamp % unit.day / unit.hour = 16 then unit.refine timestamp + 8 * unit.finer.hour
  else unit.refine timestamp

/-- `floor_temporal`. -/
def floorDay (unit : TimeUnit) (timestamp : ℤ) : ℤ := timestamp / unit.day * unit.day

def midnights (aShare : Bool) (unit : TimeUnit) (times : List ℤ) : List ℤ :=
  if aShare then (times.map (addEightHours unit)).map (floorDay unit.finer) else times.map (floorDay unit)

/-- `_d1_midnight_us`. Only zone-aware times are cast to microseconds. -/
def d1MidnightUs (aShare : Bool) (unit : TimeUnit) (zoned : Bool) (times : List ℤ) : Except ColumnError (List ℤ) :=
  if zoned then (castMicros unit times).map (midnights aShare .us) else .ok (midnights aShare unit times)

structure CloseColumns (F : Type) where
  dates : List ℤ
  closes : List F
  aligned : dates.length = closes.length

section Columns

variable {F : Type}

def sliceCloseColumns (columns : CloseColumns F) (start stop : Option ℤ) : CloseColumns F :=
  let lo := start.elim 0 (bisectLeft columns.dates)
  let hi := stop.elim columns.dates.length (bisectRight columns.dates)
  if lo = 0 ∧ hi = columns.dates.length then columns
  else
    { dates := (columns.dates.take hi).drop lo
      closes := (columns.closes.take hi).drop lo
      aligned := by simp only [length_drop, length_take, columns.aligned] }

def orderedColumns (midnightUs : List ℤ) (closes : List F) : CloseColumns F where
  dates := (argsort Prod.fst (midnightUs.zip closes)).map fun i => ((midnightUs.zip closes).get i).1 / dayMicros
  closes := (argsort Prod.fst (midnightUs.zip closes)).map fun i => ((midnightUs.zip closes).get i).2
  aligned := by rw [length_map, length_map]

/-- `read_close_columns_sync`, without the opening prices. -/
def readCloseColumnsSync (key : SeriesKey) (table : CloseTable F) (start stop : Option ℤ) :
    Except ColumnError (CloseColumns F) :=
  if key.daily then
    (d1MidnightUs key.aShare table.unit table.zoned (table.valid.map (·.1))).map fun midnightUs =>
      sliceCloseColumns (orderedColumns midnightUs (table.valid.map (·.2))) start stop
  else .error .notDaily

end Columns

/-- What the read cache keeps of a file as it stands. -/
structure FileReads (F D : Type) where
  points : Option (List (ℤ × D)) := none
  columns : Option (CloseColumns F) := none

/-- The reads of a file, and what the cache evicts in between. -/
inductive ReadEvent
  | points (start stop : Option ℤ)
  | columns (start stop : Option ℤ)
  | evictPoints
  | evictColumns

section Reads

variable {F D : Type} (key : SeriesKey) (toDecimal : F → D) (table : CloseTable F)

/-- `read_close_points`: all points are kept, and the window is taken of them. -/
def readClosePoints (start stop : Option ℤ) (reads : FileReads F D) : List (ℤ × D) × FileReads F D :=
  match reads.points with
  | some points => (points.filter fun point => inWindow start stop (dateOf point.1), reads)
  | none =>
      let full := readClosePointsSync key toDecimal table none none
      (full.filter fun point => inWindow start stop (dateOf point.1), { reads with points := some full })

def readCloseColumns (start stop : Option ℤ) (reads : FileReads F D) :
    Except ColumnError (CloseColumns F) × FileReads F D :=
  match reads.columns with
  | some columns => (.ok (sliceCloseColumns columns start stop), reads)
  | none =>
      match readCloseColumnsSync key table none none with
      | .error error => (.error error, reads)
      | .ok full => (.ok (sliceCloseColumns full start stop), { reads with columns := some full })

def readTurn (reads : FileReads F D) : ReadEvent → FileReads F D
  | .points start stop => (readClosePoints key toDecimal table start stop reads).2
  | .columns start stop => (readCloseColumns key table start stop reads).2
  | .evictPoints => { reads with points := none }
  | .evictColumns => { reads with columns := none }

/-- The columns hold the dates and closes of the points. -/
def Agrees (columns : Except ColumnError (CloseColumns F)) (points : List (ℤ × D)) : Prop :=
  ∃ found, columns = .ok found ∧
    (found.dates.zip found.closes).map (fun row => (row.1, toDecimal row.2)) =
      points.map fun point => (dateOf point.1, point.2)

def readsAfter (events : List ReadEvent) : FileReads F D := events.foldl (readTurn key toDecimal table) {}

/-- Both ways agree in every window, from the file and after every run of reads. -/
def ReadsAgree : Prop :=
  ∀ start stop,
    Agrees toDecimal (readCloseColumnsSync key table start stop) (readClosePointsSync key toDecimal table start stop) ∧
    ∀ events, Agrees toDecimal (readCloseColumns key table start stop (readsAfter key toDecimal table events)).1
      (readClosePoints key toDecimal table start stop (readsAfter key toDecimal table events)).1

end Reads

def businessDay (aShare : Bool) (unit : TimeUnit) (timestamp : ℤ) : ℤ := dateOf (midnight aShare (unit.micros timestamp))

/-- The columns are in whole microseconds, or no date changes where another unit is taken for them. -/
def KeepsDays {F : Type} (aShare : Bool) (table : CloseTable F) : Prop :=
  match table.zoned, table.unit with
  | true, .ms => True
  | true, .us => True
  | true, .ns => ∀ row ∈ table.valid, row.1 % 1000 = 0
  | false, .us => True
  | false, .ms => aShare = true ∨ ∀ row ∈ table.valid, businessDay aShare .ms row.1 = 0 ∨ businessDay aShare .ms row.1 = -1
  | false, .ns => ∀ row ∈ table.valid, businessDay aShare .ns row.1 = 0

section Windows

variable {F D : Type} {key : SeriesKey} {toDecimal : F → D} {table : CloseTable F} {start stop : Option ℤ}

/-- Rows out of the window and null closes are left out either way. -/
theorem readClosePointsSync_eq : readClosePointsSync key toDecimal table start stop =
    (sortedOn (fun row => key.normalise (table.unit.micros row.1)) table.valid
      |>.map fun row => (key.normalise (table.unit.micros row.1), toDecimal row.2)).filter
        fun point => inWindow start stop (dateOf point.1) := by
  have rows : table.rows.filterMap (closePoint key toDecimal table.unit start stop) =
      (table.valid.map fun row => (key.normalise (table.unit.micros row.1), toDecimal row.2)).filter
        fun point => inWindow start stop (dateOf point.1) := by
    unfold CloseTable.valid
    induction table.rows with
    | nil => rfl
    | cons row rest ih =>
      rw [filterMap_cons, filterMap_cons, ih]
      cases close : row.2 with
      | none => simp [closePoint, close]
      | some price =>
        cases within : inWindow start stop (dateOf (key.normalise (table.unit.micros row.1))) with
        | true => simp [closePoint, close, within]
        | false => simp [closePoint, within]
  have sorted : (sortedOn (fun row => key.normalise (table.unit.micros row.1)) table.valid).map
        (fun row => (key.normalise (table.unit.micros row.1), toDecimal row.2)) =
      sortedOn Prod.fst (table.valid.map fun row => (key.normalise (table.unit.micros row.1), toDecimal row.2)) :=
    map_sortedOn _ fun _ _ _ _ => Iff.rfl
  rw [readClosePointsSync, rows, ← filter_sortedOn, ← sorted]

theorem sliceCloseColumns_eq (columns : CloseColumns F) (start stop : Option ℤ) :
    (sliceCloseColumns columns start stop).dates.zip (sliceCloseColumns columns start stop).closes =
      ((columns.dates.zip columns.closes).take (stop.elim columns.dates.length (bisectRight columns.dates))).drop
        (start.elim 0 (bisectLeft columns.dates)) := by
  unfold sliceCloseColumns
  simp only
  split_ifs with whole
  · rw [whole.1, whole.2, drop_zero, take_of_length_le]
    rw [length_zip, columns.aligned, min_self]
  · simp only [zip, take_zipWith, drop_zipWith]

/-- A window of sorted columns holds the rows with a date in it. -/
theorem zip_sliceCloseColumns {columns : CloseColumns F} (order : columns.dates.Pairwise (· ≤ ·)) :
    (sliceCloseColumns columns start stop).dates.zip (sliceCloseColumns columns start stop).closes =
      (columns.dates.zip columns.closes).filter fun row => inWindow start stop row.1 := by
  have dates := map_fst_zip columns.aligned.le
  have sorted := pairwise_map.mp (dates.symm ▸ order)
  have low : start.elim 0 (bisectLeft columns.dates) =
      ((columns.dates.zip columns.closes).filter fun row => start.any fun start => row.1 < start).length := by
    cases start with
    | none => simp
    | some start =>
      rw [Option.elim_some, bisectLeft_eq order]
      conv_lhs => rw [← dates, filter_map, length_map]
      rfl
  have high : stop.elim columns.dates.length (bisectRight columns.dates) =
      ((columns.dates.zip columns.closes).filter fun row => !(stop.any fun stop => stop < row.1)).length := by
    cases stop with
    | none => simp [columns.aligned]
    | some stop =>
      rw [Option.elim_some, bisectRight_eq order]
      conv_lhs => rw [← dates, filter_map, length_map]
      rfl
  rw [sliceCloseColumns_eq, low, high]
  apply drop_take_of_pairwise
  · apply sorted.imp
    intro row other le before
    obtain ⟨date, given, less⟩ := (Option.any_eq_true _ _).mp before
    exact (Option.any_eq_true _ _).mpr ⟨date, given, by simpa using le.trans_lt (of_decide_eq_true less)⟩
  · apply sorted.imp
    intro row other le within
    cases stop with
    | none => rfl
    | some stop =>
      simp only [Option.any_some, Bool.not_eq_true', decide_eq_false_iff_not, not_lt] at within ⊢
      exact le.trans within

end Windows

def columnUnit (aShare : Bool) (unit : TimeUnit) (zoned : Bool) : TimeUnit :=
  if zoned then .us else if aShare then unit.finer else unit

variable (unit : TimeUnit)

theorem TimeUnit.day_pos : 0 < unit.day := by cases unit <;> decide

theorem dateOf_micros (timestamp : ℤ) : dateOf (unit.micros timestamp) = timestamp / unit.day := by
  cases unit <;> simp only [dateOf, dayMicros, TimeUnit.micros, TimeUnit.day, TimeUnit.hour] <;> omega

theorem hourOf_micros (timestamp : ℤ) :
    hourOf (unit.micros timestamp) = timestamp % unit.day / unit.hour := by
  cases unit <;> simp only [hourOf, hourMicros, dayMicros, TimeUnit.micros, TimeUnit.day, TimeUnit.hour] <;> omega

theorem dateOf_mul (day : ℤ) : dateOf (day * dayMicros) = day := Int.mul_ediv_cancel _ (by decide)

theorem addEightHours_div (timestamp : ℤ) :
    addEightHours unit timestamp / unit.finer.day = businessDay true unit timestamp := by
  have hour := hourOf_micros unit timestamp
  have date : ∀ shift, (unit.refine timestamp + shift * unit.finer.hour) / unit.finer.day =
      dateOf (unit.micros timestamp + shift * hourMicros) := by
    intro shift
    cases unit <;> simp only [dateOf, hourMicros, dayMicros, TimeUnit.micros, TimeUnit.refine, TimeUnit.finer,
      TimeUnit.day, TimeUnit.hour] <;> omega
  have still := date 0
  rw [zero_mul, zero_mul, add_zero, add_zero] at still
  unfold businessDay midnight addEightHours
  rw [← hour]
  by_cases evening : hourOf (unit.micros timestamp) = 16
  · simp only [evening, and_self, if_true]
    rw [date 8, dateOf_mul]
  · simp only [evening, and_false, if_false]
    rw [still, dateOf_mul]

theorem midnights_eq (aShare : Bool) (unit : TimeUnit) (times : List ℤ) : midnights aShare unit times =
    times.map fun timestamp => businessDay aShare unit timestamp * (columnUnit aShare unit false).day := by
  unfold midnights
  cases aShare with
  | false =>
    apply map_congr_left
    intro timestamp _
    rw [businessDay, midnight, if_neg (by simp), dateOf_mul, dateOf_micros]
    rfl
  | true =>
    rw [if_pos rfl, map_map]
    apply map_congr_left
    intro timestamp _
    rw [← addEightHours_div]
    rfl

theorem d1MidnightUs_eq {aShare : Bool} {unit : TimeUnit} {zoned : Bool} {times : List ℤ}
    (whole : zoned = true → unit = .ns → ∀ timestamp ∈ times, timestamp % 1000 = 0) :
    d1MidnightUs aShare unit zoned times = .ok (times.map fun timestamp =>
      businessDay aShare unit timestamp * (columnUnit aShare unit zoned).day) := by
  unfold d1MidnightUs
  cases zoned with
  | false => rw [if_neg Bool.false_ne_true, midnights_eq]
  | true =>
    have cast : castMicros unit times = .ok (times.map unit.micros) := by
      cases unit with
      | ms => rfl
      | us => exact congrArg Except.ok (map_id times).symm
      | ns =>
        have all := all_eq_true.mpr fun timestamp member =>
          decide_eq_true (whole rfl rfl timestamp member)
        rw [castMicros, if_pos all]
        rfl
    rw [if_pos rfl, cast]
    change Except.ok (midnights aShare .us (times.map unit.micros)) = _
    rw [midnights_eq, map_map]
    cases aShare <;> rfl

theorem d1MidnightUs_lossy {aShare : Bool} {times : List ℤ} {timestamp : ℤ} (member : timestamp ∈ times)
    (lossy : timestamp % 1000 ≠ 0) : d1MidnightUs aShare .ns true times = .error .lossyCast := by
  have some_lossy : ¬times.all (· % 1000 = 0) = true := by
    intro all
    exact lossy (of_decide_eq_true (all_eq_true.mp all timestamp member))
  rw [d1MidnightUs, if_pos rfl, castMicros, if_neg some_lossy]
  rfl

section Kept

variable {F D : Type} {key : SeriesKey} {toDecimal : F → D} {table : CloseTable F} {start stop : Option ℤ}

theorem readClosePointsSync_window : readClosePointsSync key toDecimal table start stop =
    (readClosePointsSync key toDecimal table none none).filter
      fun point => inWindow start stop (dateOf point.1) := by
  have all : ∀ date, inWindow none none date = true := fun _ => rfl
  rw [readClosePointsSync_eq, readClosePointsSync_eq, filter_filter]
  simp only [all, Bool.and_true]

theorem sliceCloseColumns_all (columns : CloseColumns F) : sliceCloseColumns columns none none = columns :=
  if_pos ⟨rfl, rfl⟩

theorem readCloseColumnsSync_window : readCloseColumnsSync key table start stop =
    (readCloseColumnsSync key table none none).map fun full => sliceCloseColumns full start stop := by
  unfold readCloseColumnsSync
  cases key.daily with
  | false => rfl
  | true =>
    rw [if_pos rfl, if_pos rfl]
    cases d1MidnightUs key.aShare table.unit table.zoned (table.valid.map (·.1)) with
    | error error => rfl
    | ok midnightUs =>
      change Except.ok _ = Except.ok (sliceCloseColumns (sliceCloseColumns _ none none) start stop)
      rw [sliceCloseColumns_all]

/-- What is kept is what the whole file holds. -/
structure Current (key : SeriesKey) (toDecimal : F → D) (table : CloseTable F) (reads : FileReads F D) : Prop where
  points : ∀ points ∈ reads.points, points = readClosePointsSync key toDecimal table none none
  columns : ∀ columns ∈ reads.columns, readCloseColumnsSync key table none none = .ok columns

theorem Current.readClosePoints {reads : FileReads F D} (current : Current key toDecimal table reads) :
    Current key toDecimal table (readClosePoints key toDecimal table start stop reads).2 ∧
      (ParquetCache.readClosePoints key toDecimal table start stop reads).1 =
        readClosePointsSync key toDecimal table start stop := by
  rw [readClosePointsSync_window]
  unfold ParquetCache.readClosePoints
  cases kept : reads.points with
  | none => exact ⟨⟨fun points full => (Option.some.inj full).symm, current.columns⟩, rfl⟩
  | some points =>
    refine ⟨current, ?_⟩
    rw [← current.points points kept]

theorem Current.readCloseColumns {reads : FileReads F D} (current : Current key toDecimal table reads) :
    Current key toDecimal table (readCloseColumns key table start stop reads).2 ∧
      (ParquetCache.readCloseColumns key table start stop reads).1 = readCloseColumnsSync key table start stop := by
  rw [readCloseColumnsSync_window]
  unfold ParquetCache.readCloseColumns
  cases kept : reads.columns with
  | none =>
    cases full : readCloseColumnsSync key table none none with
    | error error => exact ⟨current, rfl⟩
    | ok columns =>
      refine ⟨⟨current.points, ?_⟩, rfl⟩
      intro found same
      rw [full, Option.some.inj same]
  | some columns =>
    refine ⟨current, ?_⟩
    rw [current.columns columns kept]
    rfl

theorem Current.readTurn {reads : FileReads F D} (current : Current key toDecimal table reads) (event : ReadEvent) :
    Current key toDecimal table (readTurn key toDecimal table reads event) := by
  cases event with
  | points start stop => exact current.readClosePoints.1
  | columns start stop => exact current.readCloseColumns.1
  | evictPoints => exact ⟨by simp [ParquetCache.readTurn], current.columns⟩
  | evictColumns => exact ⟨current.points, by simp [ParquetCache.readTurn]⟩

/-- Every run of reads keeps what the whole file holds. -/
theorem current_readsAfter (key : SeriesKey) (toDecimal : F → D) (table : CloseTable F) (events : List ReadEvent) :
    Current key toDecimal table (readsAfter key toDecimal table events) := by
  have run : ∀ reads, Current key toDecimal table reads →
      Current key toDecimal table (events.foldl (ParquetCache.readTurn key toDecimal table) reads) := by
    induction events with
    | nil => exact fun reads current => current
    | cons event rest ih => exact fun reads current => ih _ (current.readTurn event)
  exact run {} ⟨by simp, by simp⟩

theorem readsAgree_iff : ReadsAgree key toDecimal table ↔ ∀ start stop,
    Agrees toDecimal (readCloseColumnsSync key table start stop)
      (readClosePointsSync key toDecimal table start stop) := by
  constructor
  · exact fun agree start stop => (agree start stop).1
  · intro agree start stop
    refine ⟨agree start stop, fun events => ?_⟩
    have current := current_readsAfter key toDecimal table events
    rw [current.readCloseColumns.2, current.readClosePoints.2]
    exact agree start stop

end Kept

section Agreement

variable {F D : Type} {code : String} {toDecimal : F → D} {table : CloseTable F}

/-- The rows with a close, by their dates. -/
def byBusinessDay (aShare : Bool) (table : CloseTable F) : List (ℤ × F) :=
  sortedOn (fun row => businessDay aShare table.unit row.1) table.valid

theorem points_eq : (readClosePointsSync ⟨code, true⟩ toDecimal table none none).map
      (fun point => (dateOf point.1, point.2)) =
    (byBusinessDay (aShare ⟨code, true⟩) table).map fun row =>
      (businessDay (aShare ⟨code, true⟩) table.unit row.1, toDecimal row.2) := by
  have all : ∀ date, inWindow none none date = true := fun _ => rfl
  have midnights : ∀ timestamp, (⟨code, true⟩ : SeriesKey).normalise timestamp =
      dateOf (midnight (aShare ⟨code, true⟩) timestamp) * dayMicros := by
    intro timestamp
    rw [midnight, dateOf_mul]
    rfl
  have order : sortedOn (fun row : ℤ × F => (⟨code, true⟩ : SeriesKey).normalise (table.unit.micros row.1)) table.valid =
      byBusinessDay (aShare ⟨code, true⟩) table := by
    apply sortedOn_congr
    intro row _ other _
    rw [midnights, midnights]
    exact Int.mul_le_mul_right (by decide)
  rw [readClosePointsSync_eq, order]
  simp only [all, filter_true, map_map]
  rfl

theorem zip_orderedColumns (midnightUs : List ℤ) (closes : List F) :
    (orderedColumns midnightUs closes).dates.zip (orderedColumns midnightUs closes).closes =
      (sortedOn Prod.fst (midnightUs.zip closes)).map fun row => (row.1 / dayMicros, row.2) := by
  have dates : (orderedColumns midnightUs closes).dates =
      (sortedOn Prod.fst (midnightUs.zip closes)).map fun row => row.1 / dayMicros :=
    map_argsort fun row : ℤ × F => row.1 / dayMicros
  have prices : (orderedColumns midnightUs closes).closes =
      (sortedOn Prod.fst (midnightUs.zip closes)).map fun row => row.2 :=
    map_argsort fun row : ℤ × F => row.2
  rw [dates, prices, zip_map']

/-- The columns of the whole file, where it can be cast. -/
theorem columns_eq (aShare zoned : Bool) (table : CloseTable F) :
    (sortedOn Prod.fst ((table.valid.map fun row => businessDay aShare table.unit row.1 *
        (columnUnit aShare table.unit zoned).day).zip (table.valid.map (·.2)))).map
      (fun row => (row.1 / dayMicros, row.2)) = (byBusinessDay aShare table).map fun row =>
      (businessDay aShare table.unit row.1 * (columnUnit aShare table.unit zoned).day / dayMicros, row.2) := by
  have unit := (columnUnit aShare table.unit zoned).day_pos
  have order : (byBusinessDay aShare table).map (fun row =>
        (businessDay aShare table.unit row.1 * (columnUnit aShare table.unit zoned).day, row.2)) =
      sortedOn Prod.fst (table.valid.map fun row =>
        (businessDay aShare table.unit row.1 * (columnUnit aShare table.unit zoned).day, row.2)) := by
    apply map_sortedOn
    intro row _ other _
    exact (Int.mul_le_mul_right unit).symm
  rw [zip_map', ← order, map_map]
  rfl

theorem readCloseColumnsSync_whole (code : String)
    (whole : table.zoned = true → table.unit = .ns → ∀ row ∈ table.valid, row.1 % 1000 = 0) :
    ∃ columns : CloseColumns F, readCloseColumnsSync ⟨code, true⟩ table none none = .ok columns ∧
      columns.dates.zip columns.closes = (byBusinessDay (aShare ⟨code, true⟩) table).map fun row =>
        (businessDay (aShare ⟨code, true⟩) table.unit row.1 *
          (columnUnit (aShare ⟨code, true⟩) table.unit table.zoned).day / dayMicros, row.2) := by
  have times : table.zoned = true → table.unit = .ns → ∀ timestamp ∈ table.valid.map (·.1), timestamp % 1000 = 0 := by
    intro zoned unit timestamp member
    obtain ⟨row, listed, rfl⟩ := mem_map.mp member
    exact whole zoned unit row listed
  refine ⟨_, ?_, (zip_orderedColumns _ _).trans (columns_eq _ table.zoned table)⟩
  rw [readCloseColumnsSync, if_pos rfl, d1MidnightUs_eq times, map_map]
  exact congrArg Except.ok (sliceCloseColumns_all _)

/-- Without a whole number of microseconds in every time the columns are not read. -/
theorem readCloseColumnsSync_lossy {row : ℤ × F} (zoned : table.zoned = true) (unit : table.unit = .ns)
    (member : row ∈ table.valid) (lossy : row.1 % 1000 ≠ 0) :
    readCloseColumnsSync ⟨code, true⟩ table none none = .error .lossyCast := by
  rw [readCloseColumnsSync, if_pos rfl, zoned, unit, d1MidnightUs_lossy (mem_map_of_mem member) lossy]
  rfl

/-- The condition on the table, in terms of the dates of the columns. -/
theorem keepsDays_iff (aShare : Bool) (table : CloseTable F) : KeepsDays aShare table ↔
    (table.zoned = true → table.unit = .ns → ∀ row ∈ table.valid, row.1 % 1000 = 0) ∧
      ∀ row ∈ table.valid, businessDay aShare table.unit row.1 *
        (columnUnit aShare table.unit table.zoned).day / dayMicros = businessDay aShare table.unit row.1 := by
  have micros : ∀ day : ℤ, day * TimeUnit.us.day / dayMicros = day := dateOf_mul
  have millis : ∀ day : ℤ, day * TimeUnit.ms.day / dayMicros = day ↔ day = 0 ∨ day = -1 := by
    intro day
    simp only [TimeUnit.day, TimeUnit.hour, dayMicros]
    omega
  have nanos : ∀ day : ℤ, day * TimeUnit.ns.day / dayMicros = day ↔ day = 0 := by
    intro day
    simp only [TimeUnit.day, TimeUnit.hour, dayMicros]
    omega
  unfold KeepsDays
  cases zoned : table.zoned with
  | true => cases unit : table.unit <;> simp [columnUnit, micros]
  | false =>
    cases unit : table.unit with
    | us => cases aShare <;> simp [columnUnit, TimeUnit.finer, micros]
    | ms => cases aShare <;> simp [columnUnit, TimeUnit.finer, micros, millis]
    | ns => cases aShare <;> simp [columnUnit, TimeUnit.finer, nanos]

/-- Columns and rows agree exactly if the dates survive the unit of the file. -/
theorem close_columns_agree_iff (code : String) (toDecimal : F → D) (table : CloseTable F) :
    ReadsAgree ⟨code, true⟩ toDecimal table ↔ KeepsDays (aShare ⟨code, true⟩) table := by
  rw [readsAgree_iff, keepsDays_iff]
  constructor
  · intro agree
    obtain ⟨found, read, same⟩ := agree none none
    have whole : table.zoned = true → table.unit = .ns → ∀ row ∈ table.valid, row.1 % 1000 = 0 := by
      intro zoned unit row member
      by_contra lossy
      rw [readCloseColumnsSync_lossy zoned unit member lossy] at read
      cases read
    refine ⟨whole, fun row member => ?_⟩
    obtain ⟨columns, whole_read, rows⟩ := readCloseColumnsSync_whole code whole
    obtain rfl := Except.ok.inj (whole_read.symm.trans read)
    rw [rows, points_eq, map_map] at same
    exact (Prod.mk.inj (map_inj_left.mp same row (mem_sortedOn.mpr member))).1
  · rintro ⟨whole, days⟩ start stop
    obtain ⟨columns, read, rows⟩ := readCloseColumnsSync_whole code whole
    have dates : columns.dates.zip columns.closes =
        (byBusinessDay (aShare ⟨code, true⟩) table).map fun row =>
          (businessDay (aShare ⟨code, true⟩) table.unit row.1, row.2) := by
      rw [rows]
      apply map_congr_left
      intro row member
      rw [days row (mem_sortedOn.mp member)]
    have order : columns.dates.Pairwise (· ≤ ·) := by
      rw [← map_fst_zip columns.aligned.le, dates, map_map]
      exact pairwise_map.mpr pairwise_sortedOn
    refine ⟨sliceCloseColumns columns start stop, ?_, ?_⟩
    · rw [readCloseColumnsSync_window, read]
      rfl
    · have columnRows : ((byBusinessDay (aShare ⟨code, true⟩) table).map fun row =>
            (businessDay (aShare ⟨code, true⟩) table.unit row.1, toDecimal row.2)).filter
              (fun row => inWindow start stop row.1) =
          ((columns.dates.zip columns.closes).filter fun row => inWindow start stop row.1).map
            fun row => (row.1, toDecimal row.2) := by
        rw [dates, filter_map, filter_map, map_map]
        rfl
      have pointRows : ((readClosePointsSync ⟨code, true⟩ toDecimal table none none).map fun point =>
            (dateOf point.1, point.2)).filter (fun row => inWindow start stop row.1) =
          ((readClosePointsSync ⟨code, true⟩ toDecimal table none none).filter fun point =>
            inWindow start stop (dateOf point.1)).map fun point => (dateOf point.1, point.2) := filter_map
      rw [zip_sliceCloseColumns order, readClosePointsSync_window, ← columnRows, ← pointRows, points_eq]

/-- Times in nanoseconds without a zone, as pandas writes them: the date of 2 January 2024 is lost. -/
theorem nanosecond_columns_differ :
    ¬ ReadsAgree ⟨"600519.SH", true⟩ (id : ℚ → ℚ) ⟨.ns, false, [(1704153600000000000, some 10)]⟩ := by
  intro agree
  obtain ⟨found, read, same⟩ := (agree none none).1
  obtain rfl := Except.ok.inj read
  revert same
  decide

end Agreement

end FinDashboard.ParquetCache
