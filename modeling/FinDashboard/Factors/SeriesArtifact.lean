import FinDashboard.Ledger.Grouping
import FinDashboard.Runs.SortedOn
import FinDashboard.Text.Timestamps
import Mathlib.Data.String.Basic

/-!
# Factor-series artifacts

A factor series is kept as a long table, one row for a day and a symbol. The table is read back as a
whole, or by days from columns that are loaded when they are first needed. A written series reads back as
the mapping that was written.
-/

namespace FinDashboard.Factors

open Ledger Text List

variable {V : Type}

/-- A row of the table; a null value is a value known to be missing. -/
structure SeriesRow (V : Type) where
  date : Date
  symbol : String
  value : Option V
deriving DecidableEq

/-- Cross-sections by day. -/
abbrev Frame (V : Type) := List (String × List (String × Option V))

/-- A mapping of days to mappings of symbols: every key comes once. -/
structure SeriesValues (V : Type) where
  days : Frame V
  keys : (days.map (·.1)).Nodup
  symbols : ∀ day ∈ days, (day.2.map (·.1)).Nodup

inductive SeriesError
  | value (text : String)
  | key (key : String)
  | index
  | ordinal (ordinal : ℤ)
  | artifact (message : String)
deriving DecidableEq

def frozenElsewhere : SeriesError := .artifact "因子序列工件已冻结到另一组决策日期,拒绝改变投影"

def alreadyLoaded : SeriesError := .artifact "因子序列工件已开始全量加载,无法再安装日期投影"

def isoDay (date : Date) : String := String.ofList date.isoformat

def parseDay (text : String) : Except SeriesError Date :=
  match Date.fromisoformat text.toList with
  | some date => .ok date
  | none => .error (.value text)

def fromordinal (ordinal : ℤ) : Except SeriesError Date :=
  match Date.fromordinal ordinal with
  | some date => .ok date
  | none => .error (.ordinal ordinal)

/-- The key of a day: a date or its text. -/
inductive DayKey
  | date (day : Date)
  | text (day : String)

def DayKey.normalised : DayKey → Except SeriesError Date
  | .date day => .ok day
  | .text day => parseDay day

def normalise (values : List (DayKey × List (String × Option V))) :
    Except SeriesError (List (Date × List (String × Option V))) :=
  values.foldlM (fun normalised day => do
    let key ← day.1.normalised
    return assign key day.2 normalised) []

/-- The rows in the order of their dates, and of their symbols within a date. -/
def seriesRows (normalised : List (Date × List (String × Option V))) : List (SeriesRow V) :=
  (sortedOn (fun day => day.1.ordinalKey) normalised).flatMap fun day =>
    (sortedOn (fun entry => entry.1) day.2).map fun entry =>
      { date := day.1, symbol := entry.1, value := entry.2 }

def writeSeriesArtifact (values : List (DayKey × List (String × Option V))) :
    Except SeriesError (List (SeriesRow V)) := do
  let normalised ← normalise values
  return seriesRows normalised

def SeriesRow.entry (row : SeriesRow V) : String × String × Option V := (isoDay row.date, row.symbol, row.value)

def frameFromTable (table : List (SeriesRow V)) : Frame V := grouped (table.map SeriesRow.entry)

/-- The columns at one row: the day since the epoch, the code of the symbol, the value with a filler for
null, and whether it is valid. -/
structure SeriesCell (V : Type) where
  day : ℤ
  code : ℕ
  value : V
  valid : Bool

structure SeriesColumns (V : Type) where
  symbols : List String
  cells : List (SeriesCell V)

def epoch : Date where
  year := 1970
  month := 1
  day := 1
  yearBound := by decide
  monthBound := by decide
  dayBound := by decide

/-- The days since the epoch. -/
def dayNumber (date : Date) : ℤ := date.toordinal - epoch.toordinal

section Columns

variable (nan : V)

def seriesCell (row : SeriesRow V) (code : ℕ) : SeriesCell V where
  day := dayNumber row.date
  code := code
  value := row.value.getD nan
  valid := row.value.isSome

def installTable (table : List (SeriesRow V)) : SeriesColumns V :=
  let encoded := dictionaryEncode (table.map SeriesRow.symbol)
  { symbols := encoded.1, cells := zipWith (seriesCell nan) table encoded.2 }

/-- One batch: its own dictionary is mapped to the codes of all the batches so far. -/
def loadBatch (loaded : List (String × ℕ) × List (SeriesCell V)) (batch : List (SeriesRow V)) :
    Except SeriesError (List (String × ℕ) × List (SeriesCell V)) :=
  let encoded := dictionaryEncode (batch.map SeriesRow.symbol)
  let (symbolDict, remap) := rememberAll loaded.1 encoded.1
  match encoded.2.mapM fun code => remap[code]? with
  | some codes => .ok (symbolDict, loaded.2 ++ zipWith (seriesCell nan) batch codes)
  | none => .error .index

/-- The file of a series: its rows, and the batches in which they are read. -/
structure SeriesFile (V : Type) where
  table : List (SeriesRow V)
  batches : List (List (SeriesRow V))
  faithful : batches.flatten = table

def loadColumns (file : SeriesFile V) : Except SeriesError (SeriesColumns V) := do
  let (symbolDict, cells) ← file.batches.foldlM (loadBatch nan) ([], [])
  let offset := cells.length
  let totalRows := file.table.length
  if offset ≠ totalRows then
    .error (.artifact s!"series 工件行数与 parquet 元数据不符: 实读 {offset} / {totalRows}")
  else return { symbols := symbolDict.map (·.1), cells := cells }

namespace SeriesColumns

def symbolOf (columns : SeriesColumns V) (cell : SeriesCell V) : Except SeriesError String :=
  match columns.symbols[cell.code]? with
  | some symbol => .ok symbol
  | none => .error .index

end SeriesColumns

def SeriesCell.value? (cell : SeriesCell V) : Option V := if cell.valid then some cell.value else none

namespace SeriesColumns

/-- The half-open range of the rows of a day. -/
def dayBounds (columns : SeriesColumns V) (date : Date) : ℕ × ℕ :=
  let days := columns.cells.map SeriesCell.day
  (bisectLeft days (dayNumber date), bisectRight days (dayNumber date))

def section? (columns : SeriesColumns V) (lo hi : ℕ) : Except SeriesError (List (String × Option V)) :=
  ((columns.cells.take hi).drop lo).foldlM (fun out cell => do
    let symbol ← columns.symbolOf cell
    return assign symbol cell.value? out) []

def frame (columns : SeriesColumns V) : Except SeriesError (Frame V) :=
  columns.cells.foldlM (fun frame cell => do
    let date ← fromordinal (epoch.toordinal + cell.day)
    let symbol ← columns.symbolOf cell
    return enter frame (isoDay date, symbol, cell.value?)) []

end SeriesColumns

structure LazySeriesValues (V : Type) where
  columns : Option (SeriesColumns V) := none
  materialised : Option (Frame V) := none
  projectedDates : Option (Finset Date) := none

/-- The ways to read a mapping. -/
inductive Read
  | getItem (key : String)
  | contains (key : String)
  | len
  | iter
  | items
  | values
  | get (key : String)

inductive Answer (V : Type)
  | nothing
  | cross (row : List (String × Option V))
  | found (present : Bool)
  | length (days : ℕ)
  | keys (days : List String)
  | entries (frame : Frame V)
  | rows (rows : List (List (String × Option V)))
  | optional (row : Option (List (String × Option V)))

def Read.answer (frame : Frame V) : Read → Except SeriesError (Answer V)
  | .getItem key =>
    match find key frame with
    | some row => .ok (.cross row)
    | none => .error (.key key)
  | .contains key => .ok (.found (find key frame).isSome)
  | .len => .ok (.length frame.length)
  | .iter => .ok (.keys (frame.map (·.1)))
  | .items => .ok (.entries frame)
  | .values => .ok (.rows (frame.map (·.2)))
  | .get key => .ok (.optional (find key frame))

namespace LazySeriesValues

variable (file : SeriesFile V)

def projectDates (dates : List Date) (self : LazySeriesValues V) :
    Except SeriesError (Answer V) × LazySeriesValues V :=
  let requested := dates.toFinset
  match self.projectedDates with
  | some frozen =>
    if requested ≠ frozen then
      (.error frozenElsewhere, self)
    else (.ok .nothing, self)
  | none =>
    if self.columns.isSome then
      (.error alreadyLoaded, self)
    else
      let columns := if requested.Nonempty then
          installTable nan (file.table.filter fun row => row.date ∈ requested)
        else { symbols := [], cells := [] }
      (.ok .nothing, { self with columns := some columns, projectedDates := some requested })

def ensureLoaded (self : LazySeriesValues V) : Except SeriesError (SeriesColumns V × LazySeriesValues V) :=
  match self.columns with
  | some columns => .ok (columns, self)
  | none => do
    let columns ← loadColumns nan file
    return (columns, { self with columns := some columns })

/-- The dictionary of all the days, made once. -/
def materialise (self : LazySeriesValues V) : Except SeriesError (Frame V) × LazySeriesValues V :=
  match self.materialised with
  | some frame => (.ok frame, self)
  | none =>
    match self.ensureLoaded nan file with
    | .error error => (.error error, self)
    | .ok (columns, self) =>
      match columns.frame with
      | .error error => (.error error, self)
      | .ok frame => (.ok frame, { self with materialised := some frame })

/-- The rows of one day, before all of them have been put in a dictionary. -/
def readDay (key : String) (self : LazySeriesValues V) :
    Except SeriesError (List (String × Option V)) × LazySeriesValues V :=
  match parseDay key with
  | .error error => (.error error, self)
  | .ok day =>
    match self.ensureLoaded nan file with
    | .error error => (.error error, self)
    | .ok (columns, self) =>
      let bounds := columns.dayBounds day
      if bounds.2 ≤ bounds.1 then (.error (.key key), self)
      else (columns.section? bounds.1 bounds.2, self)

def getItem (key : String) (self : LazySeriesValues V) :
    Except SeriesError (List (String × Option V)) × LazySeriesValues V :=
  match self.materialised with
  | some frame =>
    match find key frame with
    | some row => (.ok row, self)
    | none => (.error (.key key), self)
  | none => self.readDay nan file key

def contains (key : String) (self : LazySeriesValues V) : Except SeriesError Bool × LazySeriesValues V :=
  match self.materialised with
  | some frame => (.ok (find key frame).isSome, self)
  | none =>
    match parseDay key with
    | .error _ => (.ok false, self)
    | .ok day =>
      match self.ensureLoaded nan file with
      | .error error => (.error error, self)
      | .ok (columns, self) =>
        let bounds := columns.dayBounds day
        (.ok (decide (bounds.1 < bounds.2)), self)

def len (self : LazySeriesValues V) : Except SeriesError ℕ × LazySeriesValues V :=
  match self.materialised with
  | some frame => (.ok frame.length, self)
  | none =>
    match self.ensureLoaded nan file with
    | .error error => (.error error, self)
    | .ok (columns, self) => (.ok (sortedSet (columns.cells.map SeriesCell.day)).length, self)

/-- An iteration over the dictionary of all the days. -/
def overFrame (view : Frame V → Answer V) (self : LazySeriesValues V) :
    Except SeriesError (Answer V) × LazySeriesValues V :=
  (self.materialise nan file).map (Except.map view) id

def get (key : String) (self : LazySeriesValues V) : Except SeriesError (Answer V) × LazySeriesValues V :=
  match self.getItem nan file key with
  | (.ok row, self) => (.ok (.optional (some row)), self)
  | (.error (.key _), self) => (.ok (.optional none), self)
  | (.error error, self) => (.error error, self)

def read (self : LazySeriesValues V) : Read → Except SeriesError (Answer V) × LazySeriesValues V
  | .getItem key => (self.getItem nan file key).map (Except.map .cross) id
  | .contains key => (self.contains nan file key).map (Except.map .found) id
  | .len => (self.len nan file).map (Except.map .length) id
  | .iter => self.overFrame nan file fun frame => .keys (frame.map (·.1))
  | .items => self.overFrame nan file .entries
  | .values => self.overFrame nan file fun frame => .rows (frame.map (·.2))
  | .get key => self.get nan file key

end LazySeriesValues

inductive Access
  | projectDates (dates : List Date)
  | read (read : Read)

def LazySeriesValues.step (file : SeriesFile V) (self : LazySeriesValues V) :
    Access → Except SeriesError (Answer V) × LazySeriesValues V
  | .projectDates dates => self.projectDates nan file dates
  | .read read => self.read nan file read

end Columns

/-!
## Reading a factor series

A written series reads back as the mapping that was written, and values loaded lazily answer as the
mapping read as a whole does.
-/

theorem isoDay_injective : Function.Injective isoDay := by
  intro date other same
  exact Date.isoformat_injective (String.ofList_injective same)

variable (date : Date)

theorem parseDay_isoDay : parseDay (isoDay date) = .ok date := by
  unfold parseDay isoDay
  rw [String.toList_ofList, Date.fromisoformat_isoformat]

theorem dayNumber_injective : Function.Injective dayNumber := by
  intro date other same
  exact Date.toordinal_injective (sub_left_inj.mp same)

theorem fromordinal_dayNumber : fromordinal (epoch.toordinal + dayNumber date) = .ok date := by
  have ordinal : epoch.toordinal + dayNumber date = date.toordinal := add_sub_cancel _ _
  rw [ordinal, fromordinal, Date.fromordinal_toordinal]

/-- A text that is the canonical text of a day. -/
def IsIsoDay (key : String) : Prop := ∃ date, isoDay date = key

variable {dated : List (Date × List (String × Option V))}

theorem normalise_text (apart : (dated.map (·.1)).Nodup) :
    normalise (dated.map fun day => (.text (isoDay day.1), day.2)) = .ok dated := by
  have run : ∀ held : List (Date × List (String × Option V)), (held.map (·.1) ++ dated.map (·.1)).Nodup →
      (dated.map fun day => (DayKey.text (isoDay day.1), day.2)).foldlM (fun normalised day => do
        let key ← day.1.normalised
        return assign key day.2 normalised) held = Except.ok (ε := SeriesError) (held ++ dated) := by
    clear apart
    induction dated with
    | nil =>
      intro held _
      rw [append_nil]
      rfl
    | cons first rest ih =>
      intro held apart
      have fresh : first.1 ∉ held.map (·.1) := fun member =>
        (nodup_append.mp apart).2.2 _ member _ mem_cons_self rfl
      have step : DayKey.normalised (.text (isoDay first.1)) = .ok first.1 := parseDay_isoDay first.1
      have later := ih (held ++ [first]) (by
        rw [map_append, append_assoc]
        exact apart)
      rw [append_assoc, ← assign_of_fresh fresh] at later
      rw [map_cons, foldlM_cons, step]
      exact later
  exact run [] apart

def dayRows (day : Date × List (String × Option V)) : List (SeriesRow V) :=
  (sortedOn (fun entry => entry.1) day.2).map fun entry => { date := day.1, symbol := entry.1, value := entry.2 }

theorem filter_dayRows (day : Date × List (String × Option V)) :
    ((dayRows day).filter fun row => row.date = date) = if day.1 = date then dayRows day else [] := by
  unfold dayRows
  rw [filter_map]
  split_ifs with here
  · rw [filter_eq_self.mpr]
    intro entry _
    exact decide_eq_true here
  · rw [filter_eq_nil_iff.mpr]
    · rfl
    · intro entry _ same
      exact here (of_decide_eq_true same)

theorem flatMap_of_key {κ β γ : Type} [DecidableEq κ] {entries : List (κ × β)} (apart : (entries.map (·.1)).Nodup)
    (key : κ) (g : κ × β → List γ) :
    (entries.flatMap fun entry => if entry.1 = key then g entry else []) =
      (find key entries).elim [] fun value => g (key, value) := by
  induction entries with
  | nil => rfl
  | cons first rest ih =>
    obtain ⟨fresh, apart⟩ := nodup_cons.mp apart
    rw [flatMap_cons, ih apart, find_cons]
    by_cases here : first.1 = key
    · have absent : find key rest = none := by
        cases found : find key rest with
        | none => rfl
        | some value =>
          have member : key ∈ rest.map (·.1) := mem_map_of_mem (mem_of_find found)
          rw [← here] at member
          exact absurd member fresh
      rw [if_pos here, if_pos here, absent, ← here]
      exact append_nil _
    · rw [if_neg here, if_neg here]
      rfl

/-- The rows of a day are those of its cross-section. -/
theorem filter_seriesRows (apart : (dated.map (·.1)).Nodup)
    (date : Date) : ((seriesRows dated).filter fun row => row.date = date) =
      (find date dated).elim [] fun row => dayRows (date, row) := by
  have sorted : ((sortedOn (fun day => day.1.ordinalKey) dated).map (·.1)).Nodup :=
    (sortedOn_perm.map _).nodup_iff.mpr apart
  have blocks : ((seriesRows dated).filter fun row => row.date = date) =
      (sortedOn (fun day => day.1.ordinalKey) dated).flatMap fun day =>
        if day.1 = date then dayRows day else [] := by
    unfold seriesRows
    rw [filter_flatMap]
    exact congrArg (flatMap · _) (funext fun day => filter_dayRows date day)
  rw [blocks, flatMap_of_key sorted, find_perm apart sortedOn_perm.symm]

theorem seriesRows_ordered (dated : List (Date × List (String × Option V))) :
    (seriesRows dated).Pairwise fun row other => dayNumber row.date ≤ dayNumber other.date := by
  unfold seriesRows
  refine pairwise_flatMap.mpr ⟨fun day _ => ?_, pairwise_sortedOn.imp ?_⟩
  · rw [pairwise_map]
    exact pairwise_of_forall fun _ _ => le_rfl
  · intro day other ordered row member otherRow otherMember
    obtain ⟨entry, _, rfl⟩ := mem_map.mp member
    obtain ⟨otherEntry, _, rfl⟩ := mem_map.mp otherMember
    exact sub_le_sub_right (Date.toordinal_le_of_key ordered) _

theorem find_frameFromTable (table : List (SeriesRow V)) : find (isoDay date) (frameFromTable table) =
      if (table.filter fun row => row.date = date) = [] then none
      else some (Ledger.collect ((table.filter fun row => row.date = date).map SeriesRow.entry)) := by
  have rows : ((table.map SeriesRow.entry).filter fun row => row.1 = isoDay date) =
      (table.filter fun row => row.date = date).map SeriesRow.entry := by
    rw [filter_map]
    congr 1
    refine filter_congr fun row _ => ?_
    exact decide_eq_decide.mpr isoDay_injective.eq_iff
  have present : isoDay date ∈ (table.map SeriesRow.entry).map (·.1) ↔
      ¬ (table.filter fun row => row.date = date) = [] := by
    rw [filter_eq_nil_iff, map_map]
    simp only [mem_map, Function.comp_apply, SeriesRow.entry, isoDay_injective.eq_iff]
    simp
  rw [frameFromTable, find_grouped, rows, if_congr present rfl rfl, ite_not]

theorem find_frameFromTable_of_not_iso {key : String} (notIso : ¬ IsIsoDay key) (table : List (SeriesRow V)) :
    find key (frameFromTable table) = none := by
  have absent : key ∉ (table.map SeriesRow.entry).map (·.1) := by
    rw [map_map]
    intro member
    obtain ⟨row, _, same⟩ := mem_map.mp member
    exact notIso ⟨row.date, same⟩
  rw [frameFromTable, find_grouped, if_neg absent]

/-- A mapping of mappings as a partial function to partial functions. -/
def crossSections (frame : Frame V) (key : String) : Option (String → Option (Option V)) :=
  (find key frame).map fun row symbol => find symbol row

def withoutEmpty (frame : Frame V) : Frame V := frame.filter fun day => !day.2.isEmpty

theorem find_withoutEmpty {frame : Frame V} (apart : (frame.map (·.1)).Nodup) (key : String) :
    find key (withoutEmpty frame) = (find key frame).filter fun row => !row.isEmpty := by
  induction frame with
  | nil => rfl
  | cons first rest ih =>
    obtain ⟨fresh, apart⟩ := nodup_cons.mp apart
    have later := ih apart
    unfold withoutEmpty at later ⊢
    rw [find_cons]
    cases empty : first.2.isEmpty with
    | true =>
      rw [filter_cons_of_neg (by simp [empty]), later]
      by_cases here : first.1 = key
      · have absent : find key rest = none := by
          cases found : find key rest with
          | none => rfl
          | some row =>
            have member : key ∈ rest.map (·.1) := mem_map_of_mem (mem_of_find found)
            rw [← here] at member
            exact absurd member fresh
        rw [absent, if_pos here, Option.filter_some, empty]
        rfl
      · rw [if_neg here]
    | false =>
      rw [filter_cons_of_pos (by simp [empty]), find_cons, later]
      by_cases here : first.1 = key
      · rw [if_pos here, if_pos here, Option.filter_some, empty]
        rfl
      · rw [if_neg here, if_neg here]

theorem find_isoDays (dated : List (Date × List (String × Option V))) :
    find (isoDay date) (dated.map fun day => (isoDay day.1, day.2)) = find date dated := by
  induction dated with
  | nil => rfl
  | cons first rest ih =>
    rw [map_cons, find_cons, find_cons, ih]
    exact if_congr isoDay_injective.eq_iff rfl rfl

/-- A cross-section is read back with its symbols in order. -/
theorem collect_dayRows {date : Date} {row : List (String × Option V)} (apart : (row.map (·.1)).Nodup) :
    Ledger.collect ((dayRows (date, row)).map SeriesRow.entry) = sortedOn (fun entry => entry.1) row := by
  have entries : (dayRows (date, row)).map SeriesRow.entry =
      (sortedOn (fun entry => entry.1) row).map fun entry => (isoDay date, entry) := by
    unfold dayRows
    rw [map_map]
    rfl
  have sorted : ((sortedOn (fun entry => entry.1) row).map (·.1)).Nodup :=
    (sortedOn_perm.map _).nodup_iff.mpr apart
  rw [entries, collect_of_nodup, map_map]
  · exact map_id _
  · rw [map_map]
    exact sorted

/-- What is written is read back, without the empty days. -/
theorem crossSections_frameFromTable
    (apart : (dated.map (·.1)).Nodup) (symbols : ∀ day ∈ dated, (day.2.map (·.1)).Nodup) (key : String) :
    crossSections (frameFromTable (seriesRows dated)) key =
      crossSections (withoutEmpty (dated.map fun day => (isoDay day.1, day.2))) key := by
  have keys : ((dated.map fun day => (isoDay day.1, day.2)).map (·.1)).Nodup := by
    rw [map_map]
    have mapped := apart.map isoDay_injective
    rwa [map_map] at mapped
  unfold crossSections
  rw [find_withoutEmpty keys]
  by_cases iso : IsIsoDay key
  · obtain ⟨date, rfl⟩ := iso
    rw [find_frameFromTable, filter_seriesRows apart, find_isoDays]
    cases found : find date dated with
    | none => rfl
    | some row =>
      have distinct := symbols _ (mem_of_find found)
      have empty : dayRows (date, row) = [] ↔ row = [] := by
        unfold dayRows
        rw [map_eq_nil_iff]
        exact ⟨fun none => perm_nil.mp (none ▸ sortedOn_perm.symm), fun none => by rw [none]; rfl⟩
      rw [Option.elim_some, if_congr empty rfl rfl, collect_dayRows distinct, Option.filter_some]
      cases row with
      | nil => rfl
      | cons entry rest =>
        rw [if_neg (cons_ne_nil _ _)]
        refine congrArg some (funext fun symbol => ?_)
        exact find_perm distinct sortedOn_perm.symm
  · have absent : find key (dated.map fun day => (isoDay day.1, day.2)) = none := by
      cases found : find key (dated.map fun day => (isoDay day.1, day.2)) with
      | none => rfl
      | some row =>
        obtain ⟨day, _, same⟩ := mem_map.mp (mem_of_find found)
        exact absurd ⟨day.1, congrArg Prod.fst same⟩ iso
    rw [find_frameFromTable_of_not_iso iso, absent]
    rfl

theorem exists_dated {days : Frame V} (iso : ∀ day ∈ days, IsIsoDay day.1) :
    ∃ dated : List (Date × List (String × Option V)), (dated.map fun day => (isoDay day.1, day.2)) = days := by
  have range : days ∈ Set.range (map fun day : Date × List (String × Option V) => (isoDay day.1, day.2)) := by
    rw [Set.range_list_map]
    intro day member
    obtain ⟨date, same⟩ := iso day member
    exact ⟨(date, day.2), Prod.ext same rfl⟩
  exact range

end FinDashboard.Factors
