import FinDashboard.Ledger.Dictionary
import Mathlib.Data.List.DropRight

/-!
# The synchronisation of the instrument table

A call compares what was discovered with the rows of the markets and types it covers: rows that are
discovered are updated, new codes are inserted, and rows that are missing often enough are marked as
delisted. A date is the ordinal of its day. A call that raises leaves the tables as they were, since
its session is rolled back.
-/

namespace FinDashboard.Instruments

open FinDashboard.Ledger (assign)

inductive ListingStatus
  | active
  | suspended
  | delisted
  | pending
  | unknown
deriving DecidableEq, Repr

/-- An entry of the discovered list; absent keys have the defaults of the source. -/
structure Instrument where
  code : String
  name : String := ""
  market : String := "a_share"
  instrumentType : String := "stock"
  exchange : Option String := none
  listingBoard : Option String := none
deriving DecidableEq, Repr

/-- The market and the type an entry was discovered under. -/
def Instrument.key (instrument : Instrument) : String × String :=
  (instrument.market, instrument.instrumentType)

structure InstrumentRow where
  code : String
  name : String
  market : String
  instrumentType : String
  exchange : Option String
  listingBoard : String
  status : ListingStatus
  missingRuns : ℕ
  delistDate : Option ℤ := none
deriving DecidableEq, Repr

namespace InstrumentRow

def key (row : InstrumentRow) : String × String := (row.market, row.instrumentType)

def ofInstrument (code : String) (instrument : Instrument) : InstrumentRow where
  code := code
  name := instrument.name
  market := instrument.market
  instrumentType := instrument.instrumentType
  exchange := instrument.exchange
  listingBoard := instrument.listingBoard.getD "unknown"
  status := .active
  missingRuns := 0

/-- What a discovered entry changes in a row: neither its market nor its type. -/
def update (instrument : Instrument) (row : InstrumentRow) : InstrumentRow :=
  { row with
    name := if instrument.name ≠ "" then instrument.name else row.name
    exchange := instrument.exchange <|> row.exchange
    listingBoard := instrument.listingBoard.getD row.listingBoard
    missingRuns := 0 }

/-- One more run a row is missing from; the last one that is needed marks it as delisted. -/
def miss (asOf delistConfirmRuns : ℤ) (row : InstrumentRow) : InstrumentRow :=
  if delistConfirmRuns ≤ row.missingRuns + 1 then
    { row with missingRuns := row.missingRuns + 1, status := .delisted, delistDate := some asOf }
  else { row with missingRuns := row.missingRuns + 1 }

end InstrumentRow

/-- The rows of `instruments`; their codes are unique. -/
structure InstrumentTable where
  rows : List InstrumentRow
  unique : (rows.map (·.code)).Nodup

namespace InstrumentTable

def find (table : InstrumentTable) (code : String) : Option InstrumentRow :=
  table.rows.find? fun row => row.code = code

/-- The unique index refuses a second row of a code. -/
def insert (table : InstrumentTable) (row : InstrumentRow) : Option InstrumentTable :=
  if fresh : row.code ∉ table.rows.map (·.code) then
    some
      { rows := table.rows ++ [row]
        unique := by
          rw [List.map_append]
          exact table.unique.append (List.nodup_singleton _) (by simpa using fresh) }
  else none

def modify (table : InstrumentTable) (change : InstrumentRow → InstrumentRow)
    (keeps : ∀ row, (change row).code = row.code) : InstrumentTable where
  rows := table.rows.map change
  unique := by
    rw [List.map_map]
    have same : (fun row : InstrumentRow => row.code) ∘ change = fun row => row.code :=
      funext keeps
    rw [same]
    exact table.unique

end InstrumentTable

/-- A row of `instrument_names`. -/
structure NameRecord where
  instrumentCode : String
  name : String
  validFrom : ℤ
  validTo : Option ℤ := none
deriving DecidableEq, Repr

structure InstrumentStore where
  table : InstrumentTable
  names : List NameRecord

structure InstrumentSyncResult where
  new : ℕ := 0
  updated : ℕ := 0
  renamed : List (String × String × String) := []
  pendingDelist : List String := []
  delisted : List String := []
  reactivated : List String := []
deriving DecidableEq, Repr

/-- What a call raises. -/
inductive SyncError
  | confirmRunsTooSmall
  | duplicateCode (code : String)
  | multipleNameRecords (code : String)
deriving DecidableEq, Repr

/-- `_close_name_record`: a code must not have two open records. -/
def closeNameRecord (names : List NameRecord) (code : String) (asOf : ℤ) :
    Except SyncError (List NameRecord) :=
  let isOpen := fun record : NameRecord => record.instrumentCode = code && record.validTo.isNone
  if 1 < (names.filter isOpen).length then .error (.multipleNameRecords code)
  else .ok (names.map fun record =>
    if isOpen record then { record with validTo := some asOf } else record)

def openNameRecord (names : List NameRecord) (code name : String) (asOf : ℤ) : List NameRecord :=
  names ++ [{ instrumentCode := code, name := name, validFrom := asOf }]

/-- The session during a call. -/
structure SyncState where
  table : InstrumentTable
  names : List NameRecord
  result : InstrumentSyncResult

/-- The keys of the rows are compared by their parts. -/
scoped instance lawfulKey : LawfulBEq (String × String) := inferInstance

/-- The row of a code among those the call has read: its market and type are in the scope. -/
def lookup (scope : List (String × String)) (table : InstrumentTable) (code : String) :
    Option InstrumentRow :=
  (table.find code).filter (·.key ∈ scope)

def insertInstrument (asOf : ℤ) (code : String) (instrument : Instrument) (state : SyncState) :
    Except SyncError SyncState :=
  match state.table.insert (.ofInstrument code instrument) with
  | none => .error (.duplicateCode code)
  | some table => .ok
    { table := table
      names := openNameRecord state.names code instrument.name asOf
      result := { state.result with new := state.result.new + 1 } }

/-- A discovered entry has another name than its row. -/
def renames (instrument : Instrument) (row : InstrumentRow) : Bool :=
  instrument.name ≠ "" && row.name ≠ instrument.name

/-- The name records after an entry: a change of the name closes the open one and opens another. -/
def recordName (names : List NameRecord) (asOf : ℤ) (code : String) (instrument : Instrument)
    (row : InstrumentRow) : Except SyncError (List NameRecord) :=
  if renames instrument row then
    (closeNameRecord names code asOf).map fun closed =>
      openNameRecord closed code instrument.name asOf
  else .ok names

def countUpdate (code : String) (instrument : Instrument) (row : InstrumentRow)
    (result : InstrumentSyncResult) : InstrumentSyncResult :=
  { result with
    updated := result.updated + 1
    renamed := if renames instrument row then result.renamed ++ [(code, row.name, instrument.name)]
      else result.renamed
    reactivated := if 0 < row.missingRuns && row.status ≠ .delisted
      then result.reactivated ++ [code] else result.reactivated }

def updateInstrument (asOf : ℤ) (code : String) (instrument : Instrument) (row : InstrumentRow)
    (state : SyncState) : Except SyncError SyncState :=
  (recordName state.names asOf code instrument row).map fun names =>
    { table := state.table.modify
        (fun row => if row.code = code then row.update instrument else row)
        (fun row => by split <;> rfl)
      names := names
      result := countUpdate code instrument row state.result }

/-- The forward pass at one code. -/
def syncInstrument (scope : List (String × String)) (asOf : ℤ) (entry : String × Instrument)
    (state : SyncState) : Except SyncError SyncState :=
  match lookup scope state.table entry.1 with
  | none => insertInstrument asOf entry.1 entry.2 state
  | some row => updateInstrument asOf entry.1 entry.2 row state

def syncForward (scope : List (String × String)) (asOf : ℤ) :
    List (String × Instrument) → SyncState → Except SyncError SyncState
  | [], state => .ok state
  | entry :: rest, state => do
    let next ← syncInstrument scope asOf entry state
    syncForward scope asOf rest next

/-- `code in discovered_by_key[key]` for a row. -/
def discoveredUnderKey (byCode : List (String × Instrument)) (row : InstrumentRow) : Bool :=
  byCode.any fun entry => entry.2.key = row.key && entry.1 = row.code

/-- The rows the reverse pass counts as missing. -/
def isMissing (scope : List (String × String)) (byCode : List (String × Instrument))
    (row : InstrumentRow) : Bool :=
  row.key ∈ scope && !discoveredUnderKey byCode row && row.status ≠ .delisted

def syncReverse (scope : List (String × String)) (byCode : List (String × Instrument))
    (asOf delistConfirmRuns : ℤ) (state : SyncState) : SyncState :=
  let missing := state.table.rows.filter (isMissing scope byCode)
  let confirmed := fun row : InstrumentRow => delistConfirmRuns ≤ row.missingRuns + 1
  { table := state.table.modify
      (fun row => if isMissing scope byCode row then row.miss asOf delistConfirmRuns else row)
      (fun row => by
        split
        · unfold InstrumentRow.miss
          split <;> rfl
        · rfl)
    names := state.names
    result :=
      { state.result with
        delisted := (missing.filter (confirmed ·)).map (·.code)
        pendingDelist := (missing.filter (! confirmed ·)).map (·.code) } }

/-- `by_code`: of several entries of a code the last one counts. -/
def byCode (instruments : List Instrument) : List (String × Instrument) :=
  instruments.foldl (fun entries instrument => assign instrument.code instrument entries) []

def syncWithDiff (store : InstrumentStore) (instruments : List Instrument)
    (asOf delistConfirmRuns : ℤ) : Except SyncError (InstrumentStore × InstrumentSyncResult) :=
  if instruments = [] then .ok (store, {})
  else if delistConfirmRuns < 1 then .error .confirmRunsTooSmall
  else do
    let scope := instruments.map (·.key)
    let forward ← syncForward scope asOf (byCode instruments)
      { table := store.table, names := store.names, result := {} }
    let final := syncReverse scope (byCode instruments) asOf delistConfirmRuns forward
    pure ({ table := final.table, names := final.names }, final.result)

end FinDashboard.Instruments
