import FinDashboard.Instruments.Delisting
import FinDashboard.Ledger.KeyedMerge
import FinDashboard.Runs.Fallible
import FinDashboard.Runs.Guarded
import Mathlib.Algebra.GroupWithZero.Nat
import Mathlib.Data.List.Pairwise

/-!
# Name histories

The synchronisation closes the open name of an instrument and opens the next one; an import of the upstream
history rebuilds all names of its symbols. A code that the synchronisation inserts is given an open name
without closing one: an import may have left an open name for it.
-/

namespace FinDashboard.Instruments

open List

open Ledger (assign find mergeRows)

/-- `str.isspace` for one character. -/
def isSpace (c : Char) : Bool :=
  c.toNat ∈ [9, 10, 11, 12, 13, 28, 29, 30, 31, 32, 133, 160, 5760, 8232, 8233, 8239, 8287, 12288] ||
    (8192 ≤ c.toNat && c.toNat ≤ 8202)

def stripName (name : String) : String :=
  String.ofList ((name.toList.dropWhile isSpace).rdropWhile isSpace)

def NameRecord.stripped (record : NameRecord) : NameRecord := { record with name := stripName record.name }

/-- `by_symbol`: the records of a symbol in their order. -/
def bySymbol (records : List NameRecord) : List (String × List NameRecord) :=
  records.foldl (fun groups record => assign record.instrumentCode
    ((find record.instrumentCode groups).getD [] ++ [record.stripped]) groups) []

/-- A record without an end before the last one ends where the next one starts. -/
def fillGaps : List NameRecord → List NameRecord
  | [] => []
  | [record] => [record]
  | record :: next :: rest =>
      { record with validTo := record.validTo <|> some next.validFrom } :: fillGaps (next :: rest)

/-- Of the records with one start the last one counts. -/
def rebuiltRows (rows : List NameRecord) : List NameRecord := fillGaps (mergeRows (·.validFrom) [] rows)

def rebuildNames (names : List NameRecord) (group : String × List NameRecord) : List NameRecord :=
  names.filter (fun record => record.instrumentCode ≠ group.1) ++ rebuiltRows group.2

structure NameHistoryImportResult where
  source : String
  receivedRecords : ℕ
  rebuiltSymbols : ℕ
  insertedRecords : ℕ
deriving DecidableEq, Repr

def importNameHistory (store : InstrumentStore) (records : List NameRecord) (sourceName : String) :
    InstrumentStore × NameHistoryImportResult :=
  ({ store with names := (bySymbol records).foldl rebuildNames store.names },
    { source := sourceName
      receivedRecords := records.length
      rebuiltSymbols := (bySymbol records).length
      insertedRecords := ((bySymbol records).map fun group => (rebuiltRows group.2).length).sum })

/-- A day lies in the interval of a record. -/
def NameRecord.Covers (record : NameRecord) (day : ℤ) : Prop :=
  record.validFrom ≤ day ∧ ∀ last ∈ record.validTo, day < last

/-- Two records of one code share no day. -/
def NameRecord.Apart (record other : NameRecord) : Prop :=
  record.instrumentCode = other.instrumentCode → ∀ day, ¬(record.Covers day ∧ other.Covers day)

structure Partitioned (names : List NameRecord) : Prop where
  disjoint : names.Pairwise NameRecord.Apart
  one_open : ∀ code, (names.filter fun record =>
    record.instrumentCode = code && record.validTo.isNone).length ≤ 1

/-- No date of a record is after a day. -/
def NameRecord.UpTo (day : ℤ) (record : NameRecord) : Prop :=
  record.validFrom ≤ day ∧ ∀ last ∈ record.validTo, last ≤ day

/-- The code has no open record. -/
def NoOpenName (names : List NameRecord) (code : String) : Prop :=
  ∀ record ∈ names, record.instrumentCode = code → record.validTo ≠ none

section Partitions

variable {names : List NameRecord} {record other : NameRecord} {asOf day : ℤ} {code : String}

theorem not_apart_of_open (same : record.instrumentCode = other.instrumentCode) (open_first : record.validTo = none)
    (open_second : other.validTo = none) : ¬ record.Apart other := by
  intro apart
  apply apart same (max record.validFrom other.validFrom)
  exact ⟨⟨le_max_left _ _, by simp [open_first]⟩, ⟨le_max_right _ _, by simp [open_second]⟩⟩

theorem partitioned_iff : Partitioned names ↔ names.Pairwise NameRecord.Apart := by
  refine ⟨Partitioned.disjoint, fun disjoint => ⟨disjoint, fun code => ?_⟩⟩
  have kept := disjoint.sublist
    (filter_sublist (p := fun record => record.instrumentCode = code && record.validTo.isNone))
  cases listed : names.filter fun record => record.instrumentCode = code && record.validTo.isNone with
  | nil => exact Nat.zero_le 1
  | cons first rest => cases rest with
    | nil => exact le_refl 1
    | cons second rest =>
      rw [listed] at kept
      have opens : ∀ record ∈ first :: second :: rest, record.instrumentCode = code ∧ record.validTo = none := by
        rw [← listed]
        intro record member
        simpa using (mem_filter.mp member).2
      have one := opens first mem_cons_self
      have two := opens second (mem_cons_of_mem _ mem_cons_self)
      have apart := (pairwise_cons.mp kept).1 second mem_cons_self
      exact absurd apart (not_apart_of_open (one.1.trans two.1.symm) one.2 two.2)

/-- Disjoint records whose dates are not after a day. -/
structure Sound (asOf : ℤ) (names : List NameRecord) : Prop where
  apart : names.Pairwise NameRecord.Apart
  upTo : ∀ record ∈ names, record.UpTo asOf

def closeRecord (code : String) (asOf : ℤ) (record : NameRecord) : NameRecord :=
  if record.instrumentCode = code && record.validTo.isNone then { record with validTo := some asOf } else record

variable {closed : List NameRecord}

theorem closeNameRecord_eq (done : closeNameRecord names code asOf = .ok closed) :
    closed = names.map (closeRecord code asOf) := by
  unfold closeNameRecord at done
  simp only at done
  split at done
  · cases done
  · exact (Except.ok.inj done).symm

theorem code_closeRecord (record : NameRecord) :
    (closeRecord code asOf record).instrumentCode = record.instrumentCode := by
  unfold closeRecord
  split <;> rfl

theorem covers_of_closeRecord (covers : (closeRecord code asOf record).Covers day) : record.Covers day := by
  unfold closeRecord at covers
  split at covers
  · rename_i isOpen
    have endless : record.validTo = none := by simpa using (Bool.and_eq_true_iff.mp isOpen).2
    exact ⟨covers.1, by simp [endless]⟩
  · exact covers

theorem upTo_closeRecord (upTo : record.UpTo asOf) : (closeRecord code asOf record).UpTo asOf := by
  unfold closeRecord
  split
  · exact ⟨upTo.1, by simp⟩
  · exact upTo

theorem closeRecord_closed (record : NameRecord) (named : (closeRecord code asOf record).instrumentCode = code) :
    (closeRecord code asOf record).validTo ≠ none := by
  rw [code_closeRecord] at named
  unfold closeRecord
  split
  · simp
  · rename_i closed
    simpa [named] using closed

theorem Sound.close (sound : Sound asOf names) (done : closeNameRecord names code asOf = .ok closed) :
    Sound asOf closed ∧ NoOpenName closed code := by
  rw [closeNameRecord_eq done]
  refine ⟨⟨?_, ?_⟩, ?_⟩
  · refine pairwise_map.mpr (sound.apart.imp fun {record other} apart same day both => ?_)
    rw [code_closeRecord, code_closeRecord] at same
    exact apart same day ⟨covers_of_closeRecord both.1, covers_of_closeRecord both.2⟩
  · intro record member
    obtain ⟨old, listed, rfl⟩ := mem_map.mp member
    exact upTo_closeRecord (sound.upTo old listed)
  · intro record member named
    obtain ⟨old, -, rfl⟩ := mem_map.mp member
    exact closeRecord_closed old named

theorem noOpenName_close {other : String} (done : closeNameRecord names code asOf = .ok closed)
    (closedBefore : NoOpenName names other) : NoOpenName closed other := by
  rw [closeNameRecord_eq done]
  intro record member named
  obtain ⟨old, listed, rfl⟩ := mem_map.mp member
  rw [code_closeRecord] at named
  have ended := closedBefore old listed named
  unfold closeRecord
  split
  · simp
  · exact ended

theorem Sound.opened (sound : Sound asOf names) (closed : NoOpenName names code) (name : String) :
    Sound asOf (openNameRecord names code name asOf) := by
  constructor
  · refine pairwise_append.mpr ⟨sound.apart, pairwise_singleton _ _, ?_⟩
    intro record member new listed same day both
    obtain rfl := mem_singleton.mp listed
    cases ends : record.validTo with
    | none => exact closed record member same ends
    | some last =>
      have before := both.1.2 last ends
      have after : asOf ≤ day := both.2.1
      have until_day := (sound.upTo record member).2 last ends
      omega
  · intro record member
    rcases mem_append.mp member with old | new
    · exact sound.upTo record old
    · obtain rfl := mem_singleton.mp new
      exact ⟨le_refl asOf, by simp⟩

theorem noOpenName_open {other name : String} (differs : other ≠ code) (closed : NoOpenName names other) :
    NoOpenName (openNameRecord names code name asOf) other := by
  intro record member named
  rcases mem_append.mp member with old | new
  · exact closed record old named
  · obtain rfl := mem_singleton.mp new
    exact absurd named.symm differs

/-- The names are sound, and a code without a row has no open name. -/
structure PassSound (asOf : ℤ) (codes : List String) (state : SyncState) : Prop where
  sound : Sound asOf state.names
  unopened : ∀ code ∈ codes, state.table.find code = none → NoOpenName state.names code

variable {state final : SyncState} {scope : List (String × String)} {instrument : Instrument}
  {codes : List String} {row : InstrumentRow}

theorem PassSound.insert (pass : PassSound asOf codes state) (listed : code ∈ codes)
    (done : insertInstrument asOf code instrument state = .ok final) : PassSound asOf codes final := by
  have absent := (@insertInstrument_find state final asOf code code instrument done).1
  have rows (other : String) := (@insertInstrument_find state final asOf code other instrument done).2
  unfold insertInstrument at done
  cases inserted : state.table.insert (.ofInstrument code instrument) with
  | none =>
    rw [inserted] at done
    cases done
  | some table =>
    rw [inserted] at done
    obtain rfl := Except.ok.inj done
    refine ⟨pass.sound.opened (pass.unopened code listed absent) _, fun other member missing => ?_⟩
    have found := rows other
    rw [missing] at found
    by_cases same : other = code
    · rw [if_pos same] at found
      cases found
    · rw [if_neg same] at found
      exact noOpenName_open same (pass.unopened other member found.symm)

theorem PassSound.update (pass : PassSound asOf codes state) (there : state.table.find code = some row)
    (done : updateInstrument asOf code instrument row state = .ok final) : PassSound asOf codes final := by
  have rows (other : String) := @updateInstrument_find state final asOf row code other instrument there done
  have kept : ∀ other, final.table.find other = none → other ≠ code ∧ state.table.find other = none := by
    intro other missing
    have found := rows other
    rw [missing] at found
    by_cases same : other = code
    · rw [if_pos same] at found
      cases found
    · rw [if_neg same] at found
      exact ⟨same, found.symm⟩
  unfold updateInstrument at done
  cases recorded : recordName state.names asOf code instrument row with
  | error error =>
    rw [recorded] at done
    cases done
  | ok names =>
    rw [recorded] at done
    have names_eq : final.names = names := by rw [← Except.ok.inj done]
    unfold recordName at recorded
    split at recorded
    · cases closing : closeNameRecord state.names code asOf with
      | error error =>
        rw [closing] at recorded
        cases recorded
      | ok closed =>
        rw [closing] at recorded
        have opened := Except.ok.inj recorded
        obtain ⟨sound, ended⟩ := pass.sound.close closing
        constructor
        · rw [names_eq, ← opened]
          exact sound.opened ended _
        · intro other member missing
          obtain ⟨differs, before⟩ := kept other missing
          rw [names_eq, ← opened]
          exact noOpenName_open differs (noOpenName_close closing (pass.unopened other member before))
    · obtain rfl := Except.ok.inj recorded
      constructor
      · rw [names_eq]
        exact pass.sound
      · intro other member missing
        rw [names_eq]
        exact pass.unopened other member (kept other missing).2

theorem PassSound.forward {entries : List (String × Instrument)} (pass : PassSound asOf codes state)
    (listed : ∀ entry ∈ entries, entry.1 ∈ codes)
    (done : syncForward scope asOf entries state = .ok final) : PassSound asOf codes final := by
  induction entries generalizing state with
  | nil =>
    cases done
    exact pass
  | cons entry rest ih =>
    obtain ⟨next, once, later⟩ := syncForward_cons done
    obtain ⟨first, listed⟩ := forall_mem_cons.mp listed
    refine ih ?_ listed later
    unfold syncInstrument at once
    cases found : lookup scope state.table entry.1 with
    | none =>
      rw [found] at once
      exact pass.insert first once
    | some row =>
      rw [found] at once
      exact pass.update (Option.filter_eq_some_iff.mp found).1 once

/-- No code that a call would insert has an open name. -/
def OpensFresh (store : InstrumentStore) (instruments : List Instrument) : Prop :=
  ∀ instrument ∈ instruments, store.table.find instrument.code = none → NoOpenName store.names instrument.code

theorem Sound.syncWithDiff {store next : InstrumentStore} {instruments : List Instrument} {delistConfirmRuns : ℤ}
    {result : InstrumentSyncResult} (sound : Sound asOf store.names) (fresh : OpensFresh store instruments)
    (done : syncWithDiff store instruments asOf delistConfirmRuns = .ok (next, result)) :
    Sound asOf next.names := by
  unfold Instruments.syncWithDiff at done
  split at done
  · cases done
    exact sound
  · obtain ⟨-, done⟩ := ok_of_guard done
    obtain ⟨forward, passed, done⟩ := exists_of_bind_eq_ok done
    cases done
    have pass : PassSound asOf (instruments.map (·.code))
        { table := store.table, names := store.names, result := {} } := by
      refine ⟨sound, fun code member missing => ?_⟩
      obtain ⟨instrument, listed, rfl⟩ := mem_map.mp member
      exact fresh instrument listed missing
    refine (pass.forward (fun entry member => ?_) passed).sound
    obtain ⟨given, same⟩ := mem_of_find_byCode (Ledger.find_of_mem nodup_byCode member)
    rw [← same]
    exact mem_map_of_mem given

/-- The records of a symbol ascend and do not overlap; those with one start are revisions of each other. -/
def Chronological (rows : List NameRecord) : Prop :=
  rows.Pairwise fun row later => row.validFrom = later.validFrom ∨
    row.validFrom < later.validFrom ∧ ∀ last ∈ row.validTo, last ≤ later.validFrom

/-- A record ends before another one starts. -/
def NameRecord.Before (row later : NameRecord) : Prop := ∃ last ∈ row.validTo, last ≤ later.validFrom

theorem NameRecord.Before.apart (before : record.Before other) : record.Apart other := by
  obtain ⟨last, ends, le⟩ := before
  intro _ day both
  have early := both.1.2 last ends
  have late := both.2.1
  omega

variable {rows : List NameRecord}

theorem validFrom_fillGaps : (fillGaps rows).map (·.validFrom) = rows.map (·.validFrom) := by
  induction rows with
  | nil => rfl
  | cons row rest ih => cases rest with
    | nil => rfl
    | cons next rest =>
      rw [fillGaps, map_cons, ih]
      rfl

theorem code_fillGaps : (fillGaps rows).map (·.instrumentCode) = rows.map (·.instrumentCode) := by
  induction rows with
  | nil => rfl
  | cons row rest ih => cases rest with
    | nil => rfl
    | cons next rest =>
      rw [fillGaps, map_cons, ih]
      rfl

theorem upTo_fillGaps (upTo : ∀ row ∈ rows, row.UpTo asOf) : ∀ row ∈ fillGaps rows, row.UpTo asOf := by
  induction rows with
  | nil => exact upTo
  | cons row rest ih => cases rest with
    | nil => exact upTo
    | cons next rest =>
      obtain ⟨first, others⟩ := forall_mem_cons.mp upTo
      refine forall_mem_cons.mpr ⟨⟨first.1, fun last ends => ?_⟩, ih others⟩
      cases given : row.validTo with
      | none =>
        have start : next.validFrom = last := by simpa [given] using ends
        rw [← start]
        exact (others next mem_cons_self).1
      | some until_day =>
        have same : until_day = last := by simpa [given] using ends
        rw [← same]
        exact first.2 until_day given

theorem before_fillGaps (ordered : rows.Pairwise fun row later => row.validFrom < later.validFrom ∧
    ∀ last ∈ row.validTo, last ≤ later.validFrom) : (fillGaps rows).Pairwise NameRecord.Before := by
  induction rows with
  | nil => exact List.Pairwise.nil
  | cons row rest ih => cases rest with
    | nil => exact pairwise_singleton _ _
    | cons next rest =>
      obtain ⟨first, others⟩ := pairwise_cons.mp ordered
      refine pairwise_cons.mpr ⟨fun later member => ?_, ih others⟩
      obtain ⟨original, listed, same⟩ : ∃ original ∈ next :: rest, original.validFrom = later.validFrom := by
        have start : later.validFrom ∈ (fillGaps (next :: rest)).map (·.validFrom) := mem_map_of_mem member
        rw [validFrom_fillGaps] at start
        exact mem_map.mp start
      rw [NameRecord.Before, ← same]
      cases given : row.validTo with
      | some last => exact ⟨last, by simp, (first original listed).2 last given⟩
      | none =>
        refine ⟨next.validFrom, by simp, ?_⟩
        rcases mem_cons.mp listed with rfl | behind
        · exact le_refl _
        · exact ((pairwise_cons.mp others).1 original behind).1.le

theorem before_rebuiltRows (chronological : Chronological rows) :
    (rebuiltRows rows).Pairwise NameRecord.Before := by
  have related : ∀ row ∈ rows, ∀ later ∈ rows, row.validFrom < later.validFrom →
      ∀ last ∈ row.validTo, last ≤ later.validFrom := by
    have forward : rows.Pairwise fun row later => row.validFrom < later.validFrom →
        ∀ last ∈ row.validTo, last ≤ later.validFrom :=
      chronological.imp fun related less => (related.resolve_left less.ne).2
    have backward : rows.Pairwise fun later row => row.validFrom < later.validFrom →
        ∀ last ∈ row.validTo, last ≤ later.validFrom :=
      chronological.imp fun related less =>
        related.elim (fun same => absurd same less.ne') fun more => absurd less more.1.asymm
    intro row one later two
    exact List.Pairwise.forall_of_forall_of_flip (fun row _ less => absurd less (lt_irrefl _)) forward backward one two
  apply before_fillGaps
  have given : ∀ row ∈ mergeRows (·.validFrom) [] rows, row ∈ rows := fun row member =>
    (Ledger.mem_of_mem_mergeRows member).resolve_left (by simp)
  refine (Ledger.ordered_mergeRows (·.validFrom) [] rows).imp_of_mem fun {row later} one two less => ⟨less, ?_⟩
  exact related row (given row one) later (given later two) less

theorem find_bySymbol_foldl (records : List NameRecord) (groups : List (String × List NameRecord)) (code : String) :
    (find code (records.foldl (fun groups record => assign record.instrumentCode
      ((find record.instrumentCode groups).getD [] ++ [record.stripped]) groups) groups)).getD [] =
      (find code groups).getD [] ++ (records.filter fun record => record.instrumentCode = code).map (·.stripped) := by
  induction records generalizing groups with
  | nil => simp
  | cons record rest ih =>
    rw [foldl_cons, ih, Ledger.find_assign]
    by_cases same : record.instrumentCode = code
    · simp [same]
    · simp [same]

theorem nodup_bySymbol (records : List NameRecord) : ((bySymbol records).map (·.1)).Nodup := by
  have step : ∀ groups : List (String × List NameRecord), (groups.map (·.1)).Nodup →
      ((records.foldl (fun groups record => assign record.instrumentCode
        ((find record.instrumentCode groups).getD [] ++ [record.stripped]) groups) groups).map (·.1)).Nodup := by
    induction records with
    | nil => exact fun _ distinct => distinct
    | cons record rest ih => exact fun _ distinct => ih _ (Ledger.nodup_keys_assign distinct)
  exact step [] nodup_nil

variable {group : String × List NameRecord} {records : List NameRecord}

theorem mem_bySymbol (member : group ∈ bySymbol records) :
    group.2 = (records.filter fun record => record.instrumentCode = group.1).map (·.stripped) := by
  have found := Ledger.find_of_mem (nodup_bySymbol records) member
  have rows := find_bySymbol_foldl records [] group.1
  rw [show records.foldl _ [] = bySymbol records from rfl, found] at rows
  exact rows

/-- An import is usable: the records of every symbol are chronological. -/
def ChronologicalImport (records : List NameRecord) : Prop :=
  ∀ code, Chronological (records.filter fun record => record.instrumentCode = code)

theorem code_rebuiltRows (own : ∀ row ∈ rows, row.instrumentCode = code) :
    ∀ row ∈ rebuiltRows rows, row.instrumentCode = code := by
  intro row member
  have listed : row.instrumentCode ∈ (rebuiltRows rows).map (·.instrumentCode) := mem_map_of_mem member
  rw [rebuiltRows, code_fillGaps] at listed
  obtain ⟨original, merged, same⟩ := mem_map.mp listed
  rw [← same]
  exact own original ((Ledger.mem_of_mem_mergeRows merged).resolve_left (by simp))

theorem apart_rebuildNames (apart : names.Pairwise NameRecord.Apart)
    (chronological : Chronological group.2) (own : ∀ row ∈ group.2, row.instrumentCode = group.1) :
    (rebuildNames names group).Pairwise NameRecord.Apart := by
  refine pairwise_append.mpr ⟨apart.sublist filter_sublist, ?_, ?_⟩
  · exact (before_rebuiltRows chronological).imp fun before => before.apart
  · intro record member row listed same
    have differs : record.instrumentCode ≠ group.1 := by simpa using (mem_filter.mp member).2
    exact absurd (same.trans (code_rebuiltRows own row listed)) differs

theorem upTo_rebuildNames (upTo : ∀ record ∈ names, record.UpTo asOf)
    (given : ∀ row ∈ group.2, row.UpTo asOf) : ∀ record ∈ rebuildNames names group, record.UpTo asOf := by
  intro record member
  rcases mem_append.mp member with old | new
  · exact upTo record (mem_of_mem_filter old)
  · refine upTo_fillGaps (fun row merged => ?_) record new
    exact given row ((Ledger.mem_of_mem_mergeRows merged).resolve_left (by simp))

theorem apart_importNames (apart : names.Pairwise NameRecord.Apart)
    (chronological : ChronologicalImport records) :
    ((bySymbol records).foldl rebuildNames names).Pairwise NameRecord.Apart := by
  have each : ∀ group ∈ bySymbol records, Chronological group.2 ∧ ∀ row ∈ group.2, row.instrumentCode = group.1 := by
    intro group member
    rw [mem_bySymbol member]
    constructor
    · exact pairwise_map.mpr (chronological group.1)
    · intro row listed
      obtain ⟨record, kept, rfl⟩ := mem_map.mp listed
      exact of_decide_eq_true (mem_filter.mp kept).2
  generalize bySymbol records = groups at each
  induction groups generalizing names with
  | nil => exact apart
  | cons group rest ih =>
    obtain ⟨first, others⟩ := forall_mem_cons.mp each
    exact ih (apart_rebuildNames apart first.1 first.2) others

theorem upTo_importNames (upTo : ∀ record ∈ names, record.UpTo asOf)
    (given : ∀ record ∈ records, record.UpTo asOf) :
    ∀ record ∈ (bySymbol records).foldl rebuildNames names, record.UpTo asOf := by
  have each : ∀ group ∈ bySymbol records, ∀ row ∈ group.2, row.UpTo asOf := by
    intro group member row listed
    rw [mem_bySymbol member] at listed
    obtain ⟨record, kept, rfl⟩ := mem_map.mp listed
    exact given record (mem_of_mem_filter kept)
  generalize bySymbol records = groups at each
  induction groups generalizing names with
  | nil => exact upTo
  | cons group rest ih =>
    obtain ⟨first, others⟩ := forall_mem_cons.mp each
    exact ih (upTo_rebuildNames upTo first) others

end Partitions

/-- A call of one of the two writers; one that raises changes nothing. -/
inductive NameStep
  | sync (instruments : List Instrument) (asOf delistConfirmRuns : ℤ)
  | importHistory (records : List NameRecord) (sourceName : String)

namespace NameStep

def apply (store : InstrumentStore) : NameStep → InstrumentStore
  | .sync instruments asOf delistConfirmRuns =>
      ((syncWithDiff store instruments asOf delistConfirmRuns).toOption.map (·.1)).getD store
  | .importHistory records sourceName => (importNameHistory store records sourceName).1

/-- The dates of a step are not after a day. -/
def UpTo (day : ℤ) : NameStep → Prop
  | .sync _ asOf _ => asOf ≤ day
  | .importHistory records _ => ∀ record ∈ records, record.UpTo day

/-- A synchronisation is not before the dates of an earlier step. -/
def LeadsTo (earlier : NameStep) : NameStep → Prop
  | .sync _ asOf _ => earlier.UpTo asOf
  | .importHistory _ _ => True

def WellFormed : NameStep → Prop
  | .sync _ _ _ => True
  | .importHistory records _ => ChronologicalImport records

/-- A synchronisation inserts no code that has an open name. -/
def Fresh (store : InstrumentStore) : NameStep → Prop
  | .sync instruments _ _ => OpensFresh store instruments
  | .importHistory _ _ => True

end NameStep

instance (names : List NameRecord) (code : String) : Decidable (NoOpenName names code) :=
  inferInstanceAs (Decidable (∀ record ∈ names, record.instrumentCode = code → record.validTo ≠ none))

instance (store : InstrumentStore) (instruments : List Instrument) : Decidable (OpensFresh store instruments) :=
  inferInstanceAs (Decidable (∀ instrument ∈ instruments, store.table.find instrument.code = none →
    NoOpenName store.names instrument.code))

instance (store : InstrumentStore) : ∀ step : NameStep, Decidable (step.Fresh store)
  | .sync instruments _ _ => inferInstanceAs (Decidable (OpensFresh store instruments))
  | .importHistory _ _ => inferInstanceAs (Decidable True)

/-- The names do not overlap, and are not after the synchronisations to come. -/
structure NamesSound (steps : List NameStep) (store : InstrumentStore) : Prop where
  apart : store.names.Pairwise NameRecord.Apart
  upTo : ∀ instruments asOf confirm, NameStep.sync instruments asOf confirm ∈ steps →
    ∀ record ∈ store.names, record.UpTo asOf

theorem NameRecord.UpTo.trans {record : NameRecord} {day later : ℤ} (upTo : record.UpTo day) (le : day ≤ later) :
    record.UpTo later :=
  ⟨upTo.1.trans le, fun last ends => (upTo.2 last ends).trans le⟩

theorem NamesSound.step {step : NameStep} {rest : List NameStep} {store : InstrumentStore}
    (sound : NamesSound (step :: rest) store) (leads : ∀ later ∈ rest, step.LeadsTo later)
    (wellFormed : step.WellFormed) (fresh : step.Fresh store) : NamesSound rest (step.apply store) := by
  cases step with
  | sync instruments asOf confirm =>
    cases done : syncWithDiff store instruments asOf confirm with
    | error error =>
      have unchanged : NameStep.apply store (.sync instruments asOf confirm) = store := by
        simp [NameStep.apply, done, Except.toOption]
      rw [unchanged]
      exact ⟨sound.apart, fun i a c member => sound.upTo i a c (mem_cons_of_mem _ member)⟩
    | ok reached =>
      obtain ⟨next, result⟩ := reached
      have changed : NameStep.apply store (.sync instruments asOf confirm) = next := by
        simp [NameStep.apply, done, Except.toOption]
      rw [changed]
      have before : Sound asOf store.names := ⟨sound.apart, sound.upTo _ _ _ mem_cons_self⟩
      have after := before.syncWithDiff fresh done
      exact ⟨after.apart, fun i a c member record listed => (after.upTo record listed).trans (leads _ member)⟩
  | importHistory records sourceName =>
    refine ⟨apart_importNames sound.apart wellFormed, fun i a c member => ?_⟩
    exact upTo_importNames (sound.upTo i a c (mem_cons_of_mem _ member)) (leads _ member)

theorem NamesSound.run {steps : List NameStep} {store : InstrumentStore} (sound : NamesSound steps store)
    (scheduled : steps.Pairwise NameStep.LeadsTo) (wellFormed : ∀ step ∈ steps, step.WellFormed)
    (fresh : Runs.Guarded NameStep.apply NameStep.Fresh store steps) :
    (Runs.run NameStep.apply store steps).names.Pairwise NameRecord.Apart := by
  induction steps generalizing store with
  | nil => exact sound.apart
  | cons step rest ih =>
    obtain ⟨leads, scheduled⟩ := pairwise_cons.mp scheduled
    obtain ⟨first, others⟩ := forall_mem_cons.mp wellFormed
    exact ih (sound.step leads first fresh.1) scheduled others fresh.2

/-- From tables without names the names of every code partition its time in every state, as long as no
synchronisation inserts a code that has an open name. -/
theorem names_partitioned (start : InstrumentStore) (nameless : start.names = []) (steps : List NameStep)
    (scheduled : steps.Pairwise NameStep.LeadsTo) (wellFormed : ∀ step ∈ steps, step.WellFormed)
    (fresh : Runs.Guarded NameStep.apply NameStep.Fresh start steps) :
    ∀ reached, reached <+: steps → Partitioned (Runs.run NameStep.apply start reached).names := by
  rintro reached ⟨later, rfl⟩
  have sound : NamesSound reached start := ⟨by simp [nameless], by simp [nameless]⟩
  exact partitioned_iff.mpr (sound.run (pairwise_append.mp scheduled).1
    (fun step member => wellFormed step (mem_append_left _ member)) fresh.of_append.1)

def formerName : NameRecord :=
  { instrumentCode := "600000", name := "savings bank", validFrom := 738000, validTo := none }

theorem leadsTo_former : ([.sync [stock] 738500 2, .importHistory [formerName] "namechange",
    .sync [{ stock with name := "merchant bank" }] 739000 2] : List NameStep).Pairwise NameStep.LeadsTo := by
  simp [NameStep.LeadsTo, NameStep.UpTo, NameRecord.UpTo, formerName]

theorem wellFormed_former : ChronologicalImport [formerName] := fun _ =>
  (pairwise_singleton _ formerName).sublist filter_sublist

theorem names_partitioned_former :
    Partitioned (Runs.run NameStep.apply emptyStore [.sync [stock] 738500 2, .importHistory [formerName] "namechange",
      .sync [{ stock with name := "merchant bank" }] 739000 2]).names :=
  names_partitioned emptyStore rfl _ leadsTo_former
    (by simpa [NameStep.WellFormed] using wellFormed_former) (by decide) _ prefix_rfl

/-- A code whose history is imported before it is first synchronised has two open names. -/
theorem imported_name_opened_twice :
    ([.importHistory [formerName] "namechange", .sync [stock] 739000 2] : List NameStep).Pairwise NameStep.LeadsTo ∧
    (∀ step ∈ ([.importHistory [formerName] "namechange", .sync [stock] 739000 2] : List NameStep), step.WellFormed) ∧
    ¬ Partitioned (Runs.run NameStep.apply emptyStore
      [.importHistory [formerName] "namechange", .sync [stock] 739000 2]).names := by
  refine ⟨by simp [NameStep.LeadsTo, NameStep.UpTo, NameRecord.UpTo, formerName],
    by simpa [NameStep.WellFormed] using wellFormed_former, fun partitioned => ?_⟩
  have names : (Runs.run NameStep.apply emptyStore
      [.importHistory [formerName] "namechange", .sync [stock] 739000 2]).names =
        [formerName, { instrumentCode := "600000", name := "bank", validFrom := 739000 }] := by decide
  have one := partitioned.one_open "600000"
  rw [names] at one
  revert one
  decide

end FinDashboard.Instruments
