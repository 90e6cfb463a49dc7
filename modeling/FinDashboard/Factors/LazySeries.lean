import FinDashboard.Factors.SeriesArtifact
import FinDashboard.Runs.Outputs

/-!
# Lazily loaded factor series

The columns that are loaded hold the rows of the file, whatever the batches in which it is read. From
them every access is answered as by the mapping read as a whole, before and after that mapping has been made.
-/

namespace FinDashboard.Factors

open Ledger Text List

variable {V : Type} {symbols : List String} {cells : List (SeriesCell V)} {rows : List (SeriesRow V)}

/-- What a cell says under a dictionary. -/
def SeriesCell.decode (symbols : List String) (cell : SeriesCell V) : Option (ℤ × String × Option V) :=
  symbols[cell.code]?.map fun symbol => (cell.day, symbol, cell.value?)

def SeriesRow.numbered (row : SeriesRow V) : ℤ × String × Option V := (dayNumber row.date, row.symbol, row.value)

/-- The cells say what the rows say, one by one. -/
def Decodes (symbols : List String) (cells : List (SeriesCell V)) (rows : List (SeriesRow V)) : Prop :=
  cells.map (SeriesCell.decode symbols) = rows.map fun row => some row.numbered

def SeriesColumns.Holds (columns : SeriesColumns V) (rows : List (SeriesRow V)) : Prop :=
  Decodes columns.symbols columns.cells rows

variable (nan : V)

theorem decode_seriesCell {row : SeriesRow V} {code : ℕ} (known : symbols[code]? = some row.symbol) :
    (seriesCell nan row code).decode symbols = some row.numbered := by
  unfold SeriesCell.decode seriesCell SeriesCell.value? SeriesRow.numbered
  rw [known]
  cases row.value with
  | none => rfl
  | some value => rfl

theorem decodes_zipWith {codes : List ℕ}
    (known : (codes.map fun code => symbols[code]?) = rows.map fun row => some row.symbol) :
    Decodes symbols (zipWith (seriesCell nan) rows codes) rows := by
  induction rows generalizing codes with
  | nil => rfl
  | cons row rest ih =>
    cases codes with
    | nil => cases known
    | cons code codes =>
      obtain ⟨here, later⟩ := cons.inj known
      exact congrArg₂ cons (decode_seriesCell nan here) (ih later)

theorem Decodes.append {more : List (SeriesCell V)} {moreRows : List (SeriesRow V)}
    (first : Decodes symbols cells rows) (second : Decodes symbols more moreRows) :
    Decodes symbols (cells ++ more) (rows ++ moreRows) := by
  unfold Decodes at first second ⊢
  rw [map_append, map_append, first, second]

theorem Decodes.mono {codes later : List (String × ℕ)} (longer : codes <+: later)
    (decodes : Decodes (codes.map (·.1)) cells rows) : Decodes (later.map (·.1)) cells rows := by
  induction cells generalizing rows with
  | nil => exact decodes
  | cons cell rest ih =>
    cases rows with
    | nil => cases decodes
    | cons row others =>
      obtain ⟨here, after⟩ := cons.inj decodes
      obtain ⟨symbol, named, same⟩ := Option.map_eq_some_iff.mp here
      have still : (later.map (·.1))[cell.code]? = some symbol := named_of_longer longer named
      refine congrArg₂ cons ?_ (ih after)
      unfold SeriesCell.decode
      rw [still]
      exact congrArg some same

theorem Decodes.window {lo hi : ℕ} (decodes : Decodes symbols cells rows) :
    Decodes symbols ((cells.take hi).drop lo) ((rows.take hi).drop lo) := by
  unfold Decodes at decodes ⊢
  rw [map_drop, map_take, decodes, ← map_take, ← map_drop]

theorem Decodes.days (decodes : Decodes symbols cells rows) :
    cells.map SeriesCell.day = rows.map fun row => dayNumber row.date := by
  induction cells generalizing rows with
  | nil =>
    cases rows with
    | nil => rfl
    | cons row others => cases decodes
  | cons cell rest ih =>
    cases rows with
    | nil => cases decodes
    | cons row others =>
      obtain ⟨here, after⟩ := cons.inj decodes
      obtain ⟨symbol, _, same⟩ := Option.map_eq_some_iff.mp here
      exact congrArg₂ cons (congrArg Prod.fst same) (ih after)

theorem holds_installTable (table : List (SeriesRow V)) : (installTable nan table).Holds table := by
  refine decodes_zipWith nan ?_
  have known := map_dictionaryEncode (table.map SeriesRow.symbol)
  rwa [map_map] at known

/-- One batch: the numbering goes on, and the cells so far keep what they say. -/
theorem loadBatch_spec {loaded : List (String × ℕ) × List (SeriesCell V)} (batch : List (SeriesRow V))
    (numbered : Numbered loaded.1) (decodes : Decodes (loaded.1.map (·.1)) loaded.2 rows) :
    ∃ result, loadBatch nan loaded batch = .ok result ∧ Numbered result.1 ∧
      Decodes (result.1.map (·.1)) result.2 (rows ++ batch) := by
  have names := map_dictionaryEncode (batch.map SeriesRow.symbol)
  obtain ⟨still, longer, remapped⟩ :=
    rememberAll_spec (dictionaryEncode (batch.map SeriesRow.symbol)).1 numbered
  obtain ⟨codes, found, known⟩ := exists_renumbered remapped names
  refine ⟨((rememberAll loaded.1 _).1, loaded.2 ++ zipWith (seriesCell nan) batch codes), ?_, still,
    (decodes.mono longer).append (decodes_zipWith nan ?_)⟩
  · simp only [loadBatch, found]
  · rw [map_map] at known
    exact known

theorem loadBatches_spec (batches : List (List (SeriesRow V)))
    (loaded : List (String × ℕ) × List (SeriesCell V)) (rows : List (SeriesRow V)) (numbered : Numbered loaded.1)
    (decodes : Decodes (loaded.1.map (·.1)) loaded.2 rows) :
    ∃ result, batches.foldlM (loadBatch nan) loaded = .ok result ∧
      Decodes (result.1.map (·.1)) result.2 (rows ++ batches.flatten) := by
  induction batches generalizing loaded rows with
  | nil => exact ⟨loaded, rfl, by rwa [flatten_nil, append_nil]⟩
  | cons batch rest ih =>
    obtain ⟨next, step, numberedNext, decodesNext⟩ := loadBatch_spec nan batch numbered decodes
    obtain ⟨result, run, decodesResult⟩ := ih _ _ numberedNext decodesNext
    refine ⟨result, ?_, ?_⟩
    · rw [foldlM_cons, step]
      exact run
    · rw [flatten_cons, ← append_assoc]
      exact decodesResult

/-- The columns of a file hold its rows, whatever its batches are. -/
theorem loadColumns_spec (file : SeriesFile V) :
    ∃ columns, loadColumns nan file = .ok columns ∧ columns.Holds file.table := by
  obtain ⟨result, run, decodes⟩ := loadBatches_spec nan file.batches ([], []) [] rfl rfl
  rw [nil_append, file.faithful] at decodes
  have count : result.2.length = file.table.length := by
    have lengths := congrArg length decodes
    rwa [length_map, length_map] at lengths
  refine ⟨{ symbols := result.1.map (·.1), cells := result.2 }, ?_, decodes⟩
  unfold loadColumns
  rw [run]
  exact if_neg (not_not_intro count)

theorem symbolOf_of_decode {columns : SeriesColumns V} {cell : SeriesCell V} {row : SeriesRow V}
    (decodes : cell.decode columns.symbols = some row.numbered) :
    columns.symbolOf cell = .ok row.symbol ∧ cell.value? = row.value ∧ cell.day = dayNumber row.date := by
  obtain ⟨symbol, named, same⟩ := Option.map_eq_some_iff.mp decodes
  unfold SeriesColumns.symbolOf
  rw [named]
  exact ⟨congrArg (fun fields : ℤ × String × Option V => Except.ok fields.2.1) same,
    congrArg (fun fields : ℤ × String × Option V => fields.2.2) same, congrArg Prod.fst same⟩

theorem section_of_decodes {columns : SeriesColumns V} (decodes : Decodes columns.symbols cells rows)
    (out : List (String × Option V)) :
    cells.foldlM (fun out cell => do
      let symbol ← columns.symbolOf cell
      return assign symbol cell.value? out) out =
      Except.ok (ε := SeriesError) (rows.foldl (fun out row => assign row.symbol row.value out) out) := by
  induction cells generalizing rows out with
  | nil =>
    cases rows with
    | nil => rfl
    | cons row others => cases decodes
  | cons cell rest ih =>
    cases rows with
    | nil => cases decodes
    | cons row others =>
      obtain ⟨here, after⟩ := cons.inj decodes
      obtain ⟨symbol, value, _⟩ := symbolOf_of_decode here
      rw [foldlM_cons, symbol, value]
      exact ih after _

theorem frame_of_decodes {columns : SeriesColumns V} (decodes : Decodes columns.symbols cells rows)
    (frame : Frame V) :
    cells.foldlM (fun frame cell => do
      let date ← fromordinal (epoch.toordinal + cell.day)
      let symbol ← columns.symbolOf cell
      return enter frame (isoDay date, symbol, cell.value?)) frame =
      Except.ok (ε := SeriesError) ((rows.map SeriesRow.entry).foldl enter frame) := by
  induction cells generalizing rows frame with
  | nil =>
    cases rows with
    | nil => rfl
    | cons row others => cases decodes
  | cons cell rest ih =>
    cases rows with
    | nil => cases decodes
    | cons row others =>
      obtain ⟨here, after⟩ := cons.inj decodes
      obtain ⟨symbol, value, day⟩ := symbolOf_of_decode here
      rw [foldlM_cons, symbol, value, day, fromordinal_dayNumber]
      exact ih after _

namespace SeriesColumns

variable {columns : SeriesColumns V}

/-- All the rows make the mapping that is read as a whole. -/
theorem frame_of_holds (holds : columns.Holds rows) : columns.frame = .ok (frameFromTable rows) :=
  frame_of_decodes holds []

/-- In rows in the order of their days, the bounds count the rows before a day, and those up to it. -/
theorem dayBounds_eq (holds : columns.Holds rows)
    (ordered : rows.Pairwise fun row other => dayNumber row.date ≤ dayNumber other.date) (date : Date) :
    columns.dayBounds date = ((rows.filter fun row => dayNumber row.date < dayNumber date).length,
      (rows.filter fun row => !(dayNumber date < dayNumber row.date)).length) := by
  have days := Decodes.days holds
  have sorted := pairwise_map.mpr ordered
  have found : columns.dayBounds date = (bisectLeft (rows.map fun row => dayNumber row.date) (dayNumber date),
      bisectRight (rows.map fun row => dayNumber row.date) (dayNumber date)) :=
    congrArg (fun days => (bisectLeft days (dayNumber date), bisectRight days (dayNumber date))) days
  rw [found, bisectLeft_eq sorted, bisectRight_eq sorted, filter_map, filter_map, length_map, length_map]
  simp only [Function.comp_def]

theorem window_dayBounds (holds : columns.Holds rows)
    (ordered : rows.Pairwise fun row other => dayNumber row.date ≤ dayNumber other.date) (date : Date) :
    (rows.take (columns.dayBounds date).2).drop (columns.dayBounds date).1 =
      rows.filter fun row => row.date = date := by
  rw [dayBounds_eq holds ordered, drop_take_of_pairwise]
  · refine filter_congr fun row _ => ?_
    rw [Bool.eq_iff_iff]
    simp only [Bool.and_eq_true, Bool.not_eq_true', decide_eq_false_iff_not, decide_eq_true_eq, not_lt]
    exact ⟨fun between => dayNumber_injective (le_antisymm between.2 between.1),
      fun same => by rw [same]; exact ⟨le_rfl, le_rfl⟩⟩
  · refine ordered.imp fun {row other} le less => ?_
    exact decide_eq_true (le.trans_lt (of_decide_eq_true less))
  · refine ordered.imp fun {row other} le reached => ?_
    simp only [Bool.not_eq_true', decide_eq_false_iff_not, not_lt] at reached ⊢
    exact le.trans reached

theorem dayBounds_le_iff (holds : columns.Holds rows)
    (ordered : rows.Pairwise fun row other => dayNumber row.date ≤ dayNumber other.date) (date : Date) :
    (columns.dayBounds date).2 ≤ (columns.dayBounds date).1 ↔ (rows.filter fun row => row.date = date) = [] := by
  have within : (columns.dayBounds date).2 ≤ rows.length := by
    rw [dayBounds_eq holds ordered]
    exact length_filter_le _ _
  rw [← window_dayBounds holds ordered, ← length_eq_zero_iff, length_drop, length_take]
  omega

theorem section_dayBounds (holds : columns.Holds rows)
    (ordered : rows.Pairwise fun row other => dayNumber row.date ≤ dayNumber other.date) (date : Date) :
    columns.section? (columns.dayBounds date).1 (columns.dayBounds date).2 =
      .ok (Ledger.collect ((rows.filter fun row => row.date = date).map SeriesRow.entry)) := by
  unfold section?
  rw [section_of_decodes (Decodes.window holds), window_dayBounds holds ordered, Ledger.collect, foldl_map]
  rfl

/-- There are as many different days as the mapping has. -/
theorem length_sortedSet_days (holds : columns.Holds rows) :
    (sortedSet (columns.cells.map SeriesCell.day)).length = (frameFromTable rows).length := by
  have dates : (rows.map fun row => dayNumber row.date) = (rows.map SeriesRow.date).map dayNumber := by
    rw [map_map]
    rfl
  have texts : (rows.map SeriesRow.entry).map (·.1) = (rows.map SeriesRow.date).map isoDay := by
    rw [map_map, map_map]
    rfl
  have keys : (frameFromTable rows).length = ((frameFromTable rows).map (·.1)).length := (length_map _).symm
  rw [Decodes.days holds, dates, sortedSet, sortedOn_perm.length_eq, dedup_map_of_injective dayNumber_injective,
    length_map, keys, frameFromTable, keys_grouped, length_dictionary, texts,
    dedup_map_of_injective isoDay_injective, length_map]

end SeriesColumns

/-- A mapping read as a whole, the dates it has been restricted to, and whether it has been used. -/
structure EagerSeriesValues (V : Type) where
  frame : Frame V
  projectedDates : Option (Finset Date) := none
  touched : Bool := false

namespace EagerSeriesValues

/-- The mapping restricted to the dates. -/
def view (eager : EagerSeriesValues V) : Frame V :=
  match eager.projectedDates with
  | none => eager.frame
  | some dates => eager.frame.filter fun day => decide (day.1 ∈ dates.image isoDay)

/-- The dates are chosen once, before the first use; every read is answered by the mapping. -/
def step (eager : EagerSeriesValues V) : Access → Except SeriesError (Answer V) × EagerSeriesValues V
  | .projectDates dates =>
    match eager.projectedDates with
    | some frozen => if dates.toFinset ≠ frozen then (.error frozenElsewhere, eager) else (.ok .nothing, eager)
    | none =>
      if eager.touched then (.error alreadyLoaded, eager)
      else (.ok .nothing, { eager with projectedDates := some dates.toFinset, touched := true })
  | .read read => (read.answer eager.view, { eager with touched := true })

end EagerSeriesValues

/-- Reads by canonical days. -/
def Read.Canonical : Read → Prop
  | .getItem key => IsIsoDay key
  | .contains key => IsIsoDay key
  | .get key => IsIsoDay key
  | .len | .iter | .items | .values => True

def Access.Canonical : Access → Prop
  | .projectDates _ => True
  | .read request => request.Canonical

def visible (table : List (SeriesRow V)) : Option (Finset Date) → List (SeriesRow V)
  | none => table
  | some dates => table.filter fun row => row.date ∈ dates

/-- The rows of the dates make the restricted mapping. -/
theorem frameFromTable_visible (eager : EagerSeriesValues V) (table : List (SeriesRow V))
    (frame : eager.frame = frameFromTable table) :
    eager.view = frameFromTable (visible table eager.projectedDates) := by
  unfold EagerSeriesValues.view visible
  rw [frame]
  cases eager.projectedDates with
  | none => rfl
  | some dates =>
    have rows : ((table.map SeriesRow.entry).filter fun row => decide (row.1 ∈ dates.image isoDay)) =
        (table.filter fun row => row.date ∈ dates).map SeriesRow.entry := by
      rw [filter_map]
      congr 1
      refine filter_congr fun row _ => ?_
      exact decide_eq_decide.mpr (isoDay_injective.mem_finset_image)
    exact (filter_grouped (fun key => decide (key ∈ dates.image isoDay)) _).trans (congrArg grouped rows)

theorem visible_ordered {table : List (SeriesRow V)}
    (ordered : table.Pairwise fun row other => dayNumber row.date ≤ dayNumber other.date)
    (dates : Option (Finset Date)) :
    (visible table dates).Pairwise fun row other => dayNumber row.date ≤ dayNumber other.date := by
  cases dates with
  | none => exact ordered
  | some dates => exact ordered.filter _

/-- The lazy values and the mapping read as a whole agree: what is loaded holds the rows of the dates. -/
structure Agrees (file : SeriesFile V) (held : LazySeriesValues V) (eager : EagerSeriesValues V) : Prop where
  frame : eager.frame = frameFromTable file.table
  projection : held.projectedDates = eager.projectedDates
  touched : held.columns.isSome = eager.touched
  frozen : held.projectedDates.isSome = true → held.columns.isSome = true
  columns : ∀ columns, held.columns = some columns → columns.Holds (visible file.table eager.projectedDates)
  materialised : ∀ frame, held.materialised = some frame → held.columns.isSome = true ∧ frame = eager.view

variable {file : SeriesFile V} {self : LazySeriesValues V} {eager : EagerSeriesValues V}

theorem Agrees.loaded (agrees : Agrees file self eager) :
    ∃ columns, self.ensureLoaded nan file = .ok (columns, { self with columns := some columns }) ∧
      columns.Holds (visible file.table eager.projectedDates) ∧
      Agrees file { self with columns := some columns } { eager with touched := true } := by
  cases there : self.columns with
  | some columns =>
    have holds := agrees.columns columns there
    have same : { self with columns := some columns } = self := by rw [← there]
    refine ⟨columns, ?_, holds, agrees.frame, agrees.projection, rfl, fun _ => rfl, fun other equal => ?_,
      fun frame made => ⟨rfl, (agrees.materialised frame made).2⟩⟩
    · rw [same, LazySeriesValues.ensureLoaded, there]
    · rwa [← Option.some.inj equal]
  | none =>
    have free : eager.projectedDates = none := by
      cases dates : eager.projectedDates with
      | none => rfl
      | some dates' =>
        have loaded := agrees.frozen (by rw [agrees.projection, dates]; rfl)
        rw [there] at loaded
        cases loaded
    obtain ⟨columns, load, holds⟩ := loadColumns_spec nan file
    have all : columns.Holds (visible file.table eager.projectedDates) := by
      rw [free]
      exact holds
    refine ⟨columns, ?_, all, agrees.frame, agrees.projection, rfl, fun _ => rfl, fun other equal => ?_,
      fun frame made => ⟨rfl, (agrees.materialised frame made).2⟩⟩
    · unfold LazySeriesValues.ensureLoaded
      rw [there]
      simp only [load]
      rfl
    · rwa [← Option.some.inj equal]

/-- Once the dictionary has been made it answers, and nothing changes. -/
theorem Agrees.read_materialised (agrees : Agrees file self eager) {frame : Frame V}
    (made : self.materialised = some frame) (read : Read) :
    self.read nan file read = (read.answer eager.view, self) := by
  obtain ⟨_, rfl⟩ := agrees.materialised frame made
  cases read with
  | getItem key =>
    simp only [LazySeriesValues.read, LazySeriesValues.getItem, made, Read.answer]
    cases find key eager.view <;> rfl
  | contains key => simp only [LazySeriesValues.read, LazySeriesValues.contains, made]; rfl
  | len => simp only [LazySeriesValues.read, LazySeriesValues.len, made]; rfl
  | iter => simp only [LazySeriesValues.read, LazySeriesValues.overFrame, LazySeriesValues.materialise, made]; rfl
  | items => simp only [LazySeriesValues.read, LazySeriesValues.overFrame, LazySeriesValues.materialise, made]; rfl
  | values => simp only [LazySeriesValues.read, LazySeriesValues.overFrame, LazySeriesValues.materialise, made]; rfl
  | get key =>
    simp only [LazySeriesValues.read, LazySeriesValues.get, LazySeriesValues.getItem, made, Read.answer]
    cases find key eager.view <;> rfl

/-- Making the dictionary makes the mapping read as a whole, restricted to the dates. -/
theorem Agrees.materialise (agrees : Agrees file self eager) (unmade : self.materialised = none) :
    (self.materialise nan file).1 = .ok eager.view ∧
      Agrees file (self.materialise nan file).2 { eager with touched := true } := by
  obtain ⟨columns, load, holds, next⟩ := agrees.loaded nan
  have frame : columns.frame = .ok eager.view := by
    rw [columns.frame_of_holds holds, frameFromTable_visible eager file.table agrees.frame]
  have result : self.materialise nan file =
      (.ok eager.view, { self with columns := some columns, materialised := some eager.view }) := by
    simp only [LazySeriesValues.materialise, unmade, load, frame]
  rw [result]
  refine ⟨rfl, next.frame, next.projection, next.touched, next.frozen, next.columns, fun made equal => ?_⟩
  exact ⟨rfl, (Option.some.inj equal).symm⟩

/-- The rows of a canonical day before the dictionary has been made. -/
theorem Agrees.readDay (agrees : Agrees file self eager)
    (ordered : file.table.Pairwise fun row other => dayNumber row.date ≤ dayNumber other.date)
    (date : Date) :
    (self.readDay nan file (isoDay date)).1 =
        (match find (isoDay date) eager.view with
          | some row => .ok row
          | none => .error (.key (isoDay date))) ∧
      Agrees file (self.readDay nan file (isoDay date)).2 { eager with touched := true } := by
  obtain ⟨columns, load, holds, next⟩ := agrees.loaded nan
  have sorted := visible_ordered ordered eager.projectedDates
  have bounds := columns.dayBounds_le_iff holds sorted date
  have found := find_frameFromTable date (visible file.table eager.projectedDates)
  rw [← frameFromTable_visible eager file.table agrees.frame] at found
  simp only [LazySeriesValues.readDay, parseDay_isoDay, load, found]
  by_cases empty : ((visible file.table eager.projectedDates).filter fun row => row.date = date) = []
  · rw [if_pos (bounds.mpr empty), if_pos empty]
    exact ⟨rfl, next⟩
  · rw [if_neg (mt bounds.mp empty), if_neg empty, columns.section_dayBounds holds sorted]
    exact ⟨rfl, next⟩

/-- Whether a canonical day is there, before the dictionary has been made. -/
theorem Agrees.contains (agrees : Agrees file self eager)
    (ordered : file.table.Pairwise fun row other => dayNumber row.date ≤ dayNumber other.date)
    (unmade : self.materialised = none) (date : Date) :
    (self.contains nan file (isoDay date)).1 = .ok (find (isoDay date) eager.view).isSome ∧
      Agrees file (self.contains nan file (isoDay date)).2 { eager with touched := true } := by
  obtain ⟨columns, load, holds, next⟩ := agrees.loaded nan
  have bounds := columns.dayBounds_le_iff holds (visible_ordered ordered eager.projectedDates) date
  have found := find_frameFromTable date (visible file.table eager.projectedDates)
  rw [← frameFromTable_visible eager file.table agrees.frame] at found
  rw [unmade] at next
  simp only [LazySeriesValues.contains, unmade, parseDay_isoDay, load, found]
  refine ⟨congrArg Except.ok ?_, next⟩
  by_cases empty : ((visible file.table eager.projectedDates).filter fun row => row.date = date) = []
  · rw [if_pos empty]
    exact decide_eq_false (not_lt.mpr (bounds.mpr empty))
  · rw [if_neg empty]
    exact decide_eq_true (not_le.mp (mt bounds.mp empty))

theorem Agrees.len (agrees : Agrees file self eager) (unmade : self.materialised = none) :
    (self.len nan file).1 = .ok eager.view.length ∧
      Agrees file (self.len nan file).2 { eager with touched := true } := by
  obtain ⟨columns, load, holds, next⟩ := agrees.loaded nan
  rw [unmade] at next
  simp only [LazySeriesValues.len, unmade, load]
  rw [columns.length_sortedSet_days holds, frameFromTable_visible eager file.table agrees.frame]
  exact ⟨rfl, next⟩

theorem Agrees.overFrame (agrees : Agrees file self eager) (unmade : self.materialised = none)
    (view : Frame V → Answer V) :
    (self.overFrame nan file view).1 = .ok (view eager.view) ∧
      Agrees file (self.overFrame nan file view).2 { eager with touched := true } := by
  obtain ⟨answer, next⟩ := agrees.materialise nan unmade
  refine ⟨?_, next⟩
  unfold LazySeriesValues.overFrame
  rw [Prod.map_fst, answer]
  rfl

theorem Agrees.read (agrees : Agrees file self eager)
    (ordered : file.table.Pairwise fun row other => dayNumber row.date ≤ dayNumber other.date)
    {read : Read} (canonical : read.Canonical) :
    (self.read nan file read).1 = read.answer eager.view ∧
      Agrees file (self.read nan file read).2 { eager with touched := true } := by
  cases made : self.materialised with
  | some frame =>
    rw [agrees.read_materialised nan made]
    have used : { eager with touched := true } = eager := by
      rw [← (agrees.materialised frame made).1, agrees.touched]
    rw [used]
    exact ⟨rfl, agrees⟩
  | none =>
    cases read with
    | getItem key =>
      obtain ⟨date, rfl⟩ := canonical
      obtain ⟨answer, next⟩ := agrees.readDay nan ordered date
      simp only [LazySeriesValues.read, LazySeriesValues.getItem, made, Prod.map_fst, Prod.map_snd, answer]
      refine ⟨?_, next⟩
      cases row : find (isoDay date) eager.view <;> simp only [Read.answer, row] <;> rfl
    | contains key =>
      obtain ⟨date, rfl⟩ := canonical
      obtain ⟨answer, next⟩ := agrees.contains nan ordered made date
      refine ⟨?_, next⟩
      unfold LazySeriesValues.read
      rw [Prod.map_fst, answer]
      rfl
    | len =>
      obtain ⟨answer, next⟩ := agrees.len nan made
      refine ⟨?_, next⟩
      unfold LazySeriesValues.read
      rw [Prod.map_fst, answer]
      rfl
    | iter => exact agrees.overFrame nan made _
    | items => exact agrees.overFrame nan made _
    | values => exact agrees.overFrame nan made _
    | get key =>
      obtain ⟨date, rfl⟩ := canonical
      obtain ⟨answer, next⟩ := agrees.readDay nan ordered date
      simp only [LazySeriesValues.read, LazySeriesValues.get, LazySeriesValues.getItem, made]
      generalize self.readDay nan file (isoDay date) = result at answer next
      obtain ⟨found, after⟩ := result
      cases row : find (isoDay date) eager.view with
      | none =>
        rw [row] at answer
        obtain rfl : found = .error (.key (isoDay date)) := answer
        simp only [Read.answer, row]
        exact ⟨trivial, next⟩
      | some entries =>
        rw [row] at answer
        obtain rfl : found = .ok entries := answer
        simp only [Read.answer, row]
        exact ⟨trivial, next⟩

/-- A projection freezes the dates of both, or is refused by both. -/
theorem Agrees.projectDates (agrees : Agrees file self eager) (dates : List Date) :
    (self.projectDates nan file dates).1 = (eager.step (.projectDates dates)).1 ∧
      Agrees file (self.projectDates nan file dates).2 (eager.step (.projectDates dates)).2 := by
  unfold LazySeriesValues.projectDates EagerSeriesValues.step
  rw [agrees.projection]
  cases frozen : eager.projectedDates with
  | some frozenDates =>
    by_cases same : dates.toFinset = frozenDates
    · simp only [same, ne_eq, not_true_eq_false, if_false]
      exact ⟨trivial, agrees⟩
    · simp only [same, ne_eq, not_false_eq_true, if_true]
      exact ⟨trivial, agrees⟩
  | none =>
    cases used : eager.touched with
    | true =>
      have loaded := agrees.touched.trans used
      simp only [loaded, if_true]
      exact ⟨trivial, agrees⟩
    | false =>
      have empty := agrees.touched.trans used
      simp only [empty, Bool.false_eq_true, if_false]
      refine ⟨trivial, agrees.frame, rfl, rfl, fun _ => rfl, fun columns equal => ?_, fun frame made => ?_⟩
      · obtain rfl := Option.some.inj equal
        unfold visible
        split_ifs with some_date
        · exact holds_installTable nan _
        · rw [Finset.not_nonempty_iff_eq_empty] at some_date
          simp [some_date, SeriesColumns.Holds, Decodes]
      · have loaded := (agrees.materialised frame made).1
        rw [empty] at loaded
        cases loaded

theorem Agrees.step (agrees : Agrees file self eager)
    (ordered : file.table.Pairwise fun row other => dayNumber row.date ≤ dayNumber other.date)
    {access : Access} (canonical : access.Canonical) :
    (self.step nan file access).1 = (eager.step access).1 ∧
      Agrees file (self.step nan file access).2 (eager.step access).2 := by
  cases access with
  | projectDates dates => exact agrees.projectDates nan dates
  | read read => exact agrees.read nan ordered canonical

theorem agrees_fresh (file : SeriesFile V) : Agrees file {} { frame := frameFromTable file.table } where
  frame := rfl
  projection := rfl
  touched := rfl
  frozen := fun frozen => frozen
  columns := nofun
  materialised := nofun

/-- A written series reads back as the mapping without its empty days, and the values loaded lazily from
it, in batches of any size, answer every access as the mapping read as a whole, projected dates included. -/
theorem seriesArtifact_roundTrip (nan : V) (values : SeriesValues V)
    (iso : ∀ day ∈ values.days, IsIsoDay day.1) :
    ∃ table, writeSeriesArtifact (values.days.map fun day => (.text day.1, day.2)) = .ok table ∧
      ((frameFromTable table).map (·.1)).Nodup ∧
      crossSections (frameFromTable table) = crossSections (withoutEmpty values.days) ∧
      ∀ file : SeriesFile V, file.table = table → ∀ accesses : List Access,
        (∀ access ∈ accesses, access.Canonical) →
          Runs.answers (LazySeriesValues.step nan file) {} accesses =
            Runs.answers EagerSeriesValues.step { frame := frameFromTable table } accesses := by
  obtain ⟨days, keys, symbols⟩ := values
  obtain ⟨dated, rfl⟩ := exists_dated iso
  have apart : (dated.map (·.1)).Nodup := by
    rw [map_map] at keys
    exact List.Nodup.of_map isoDay (by rwa [map_map])
  have distinct : ∀ day ∈ dated, (day.2.map (·.1)).Nodup := fun day member =>
    symbols _ (mem_map_of_mem member)
  refine ⟨seriesRows dated, ?_, ?_, funext fun key => crossSections_frameFromTable apart distinct key, ?_⟩
  · unfold writeSeriesArtifact
    rw [map_map]
    exact congrArg (Except.map seriesRows) (normalise_text apart)
  · rw [frameFromTable, keys_grouped]
    exact nodup_dictionary _
  · intro file written accesses canonical
    have ordered : file.table.Pairwise fun row other => dayNumber row.date ≤ dayNumber other.date := by
      rw [written]
      exact seriesRows_ordered dated
    rw [← written]
    exact Runs.answers_eq_of_agree (agrees_fresh file) canonical fun self eager access agrees canonical =>
      agrees.step nan ordered canonical

def monday : Date where
  year := 2026
  month := 1
  day := 5
  yearBound := by omega
  monthBound := epoch.monthBound
  dayBound := by decide

/-- One day with a value and a value known to be missing, and an empty day. -/
def mondayValues : SeriesValues ℕ where
  days := [(isoDay monday, [("600000.SH", some 7), ("000001.SZ", none)]), (isoDay epoch, [])]
  keys := by decide
  symbols := by decide

theorem seriesArtifact_roundTrip_monday :
    ∃ table, writeSeriesArtifact (mondayValues.days.map fun day => (.text day.1, day.2)) = .ok table ∧
      ((frameFromTable table).map (·.1)).Nodup ∧
      crossSections (frameFromTable table) = crossSections (withoutEmpty mondayValues.days) ∧
      ∀ file : SeriesFile ℕ, file.table = table → ∀ accesses : List Access,
        (∀ access ∈ accesses, access.Canonical) →
          Runs.answers (LazySeriesValues.step 0 file) {} accesses =
            Runs.answers EagerSeriesValues.step { frame := frameFromTable table } accesses := by
  refine seriesArtifact_roundTrip 0 mondayValues fun day member => ?_
  rcases mem_cons.mp member with rfl | member
  · exact ⟨monday, rfl⟩
  · rcases mem_singleton.mp member with rfl
    exact ⟨epoch, rfl⟩

end FinDashboard.Factors
