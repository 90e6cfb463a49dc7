import FinDashboard.Instruments.Sync
import FinDashboard.Runs.Streak

/-!
# Delisting

The counter of a row is the streak of runs that cover its market and type without its code, as long
as no run discovers a code under another market or type than the one in its row. Such a row is
updated by the forward pass and counted as missing by the reverse pass.
-/

namespace FinDashboard.Instruments

open FinDashboard.Runs List Ledger
open FinDashboard.Ledger (assign)

section Rows

variable {table next : InstrumentTable} {row : InstrumentRow} {code : String}
  {change : InstrumentRow → InstrumentRow} {keeps : ∀ row, (change row).code = row.code}

namespace InstrumentTable

theorem code_of_find (found : table.find code = some row) : row.code = code := by
  have holds := find?_some found
  simpa using holds

theorem find_of_mem (member : row ∈ table.rows) : table.find row.code = some row := by
  cases found : table.find row.code with
  | none =>
    have absent := find?_eq_none.mp found row member
    simp at absent
  | some other =>
    have there := mem_of_find?_eq_some found
    rw [inj_on_of_nodup_map table.unique there member (code_of_find found)]

theorem find_modify : (table.modify change keeps).find code = (table.find code).map change := by
  unfold find modify
  rw [find?_map]
  have same : (fun row : InstrumentRow => decide (row.code = code)) ∘ change =
      fun row => decide (row.code = code) := by
    funext row
    simp only [Function.comp_apply, keeps]
  rw [same]

theorem find_of_insert (inserted : table.insert row = some next) : table.find row.code = none ∧
      next.find code = if code = row.code then some row else table.find code := by
  unfold insert at inserted
  split at inserted
  · rename_i fresh
    obtain rfl := Option.some.inj inserted
    have absent : table.find row.code = none := by
      unfold find
      rw [find?_eq_none]
      intro other member same
      exact fresh (mem_map.mpr ⟨other, member, by simpa using same⟩)
    refine ⟨absent, ?_⟩
    unfold find at absent ⊢
    rw [find?_append]
    by_cases same : code = row.code
    · subst same
      rw [absent]
      simp
    · have other : row.code ≠ code := fun h => same h.symm
      simp [same, other]
  · cases inserted

end InstrumentTable

variable (instrument : Instrument)

@[simp] theorem InstrumentRow.key_update :
    (row.update instrument).key = row.key := rfl

@[simp] theorem InstrumentRow.status_update :
    (row.update instrument).status = row.status := rfl

@[simp] theorem InstrumentRow.key_ofInstrument :
    (InstrumentRow.ofInstrument code instrument).key = instrument.key := rfl

variable (asOf confirm : ℤ)

@[simp] theorem InstrumentRow.key_miss : (row.miss asOf confirm).key = row.key := by
  unfold InstrumentRow.miss
  split <;> rfl

theorem InstrumentRow.code_miss : (row.miss asOf confirm).code = row.code := by
  unfold InstrumentRow.miss
  split <;> rfl

@[simp] theorem InstrumentRow.missingRuns_miss :
    (row.miss asOf confirm).missingRuns = row.missingRuns + 1 := by
  unfold InstrumentRow.miss
  split <;> rfl

/-- A missing row is delisted once its counter reaches the bound. -/
theorem InstrumentRow.status_miss (listed : row.status ≠ .delisted) (asOf confirm : ℤ) :
    (row.miss asOf confirm).status = .delisted ↔ confirm ≤ row.missingRuns + 1 := by
  unfold InstrumentRow.miss
  split <;> simp_all

end Rows

section Discovered

variable {instruments : List Instrument} {entries : List (String × Instrument)}
  {instrument : Instrument} {code : String}

theorem nodup_byCode : ((byCode instruments).map (·.1)).Nodup := by
  have step : ∀ entries : List (String × Instrument), (entries.map (·.1)).Nodup →
      ((instruments.foldl (fun entries instrument => assign instrument.code instrument entries)
        entries).map (·.1)).Nodup := by
    induction instruments with
    | nil => exact fun _ distinct => distinct
    | cons instrument rest ih => exact fun _ distinct => ih _ (nodup_keys_assign distinct)
  exact step [] nodup_nil

/-- The entry of a code is the last one of the list. -/
theorem find_byCode : find code (byCode instruments) =
    instruments.reverse.find? fun instrument => instrument.code = code := by
  have step : ∀ entries : List (String × Instrument),
      find code (instruments.foldl
        (fun entries instrument => assign instrument.code instrument entries) entries) =
      (instruments.reverse.find? fun instrument => instrument.code = code).or
        (find code entries) := by
    induction instruments with
    | nil => exact fun _ => rfl
    | cons first rest ih =>
      intro entries
      rw [foldl_cons, ih, reverse_cons, find?_append, Option.or_assoc, find_assign]
      congr 1
      by_cases same : code = first.code
      · simp [same]
      · have other : first.code ≠ code := fun h => same h.symm
        simp [other]
  exact (step []).trans Option.or_none

theorem mem_of_find_byCode (found : find code (byCode instruments) = some instrument) :
    instrument ∈ instruments ∧ instrument.code = code := by
  rw [find_byCode] at found
  have holds := find?_some found
  exact ⟨mem_reverse.mp (mem_of_find?_eq_some found), by simpa using holds⟩

theorem find_byCode_eq_none : find code (byCode instruments) = none ↔
    code ∉ instruments.map (·.code) := by
  rw [find_byCode, find?_eq_none]
  simp

end Discovered

section Call

variable {store next : InstrumentStore} {state final : SyncState} {instruments : List Instrument}
  {entries : List (String × Instrument)} {scope : List (String × String)}
  {asOf delistConfirmRuns : ℤ} {result : InstrumentSyncResult} {row : InstrumentRow}
  {code other : String} {instrument : Instrument}

def forwardRow (code : String) (found : Option InstrumentRow) :
    Option Instrument → Option InstrumentRow
  | none => found
  | some instrument => some (found.elim (.ofInstrument code instrument) (·.update instrument))

theorem insertInstrument_find (done : insertInstrument asOf code instrument state = .ok final) :
    state.table.find code = none ∧ final.table.find other =
      if other = code then some (.ofInstrument code instrument) else state.table.find other := by
  unfold insertInstrument at done
  cases inserted : state.table.insert (.ofInstrument code instrument) with
  | none =>
    rw [inserted] at done
    cases done
  | some table =>
    rw [inserted] at done
    cases done
    exact InstrumentTable.find_of_insert inserted

theorem updateInstrument_find (found : state.table.find code = some row)
    (done : updateInstrument asOf code instrument row state = .ok final) : final.table.find other =
      if other = code then some (row.update instrument) else state.table.find other := by
  unfold updateInstrument at done
  cases recorded : recordName state.names asOf code instrument row with
  | error error =>
    rw [recorded] at done
    cases done
  | ok names =>
    rw [recorded] at done
    cases done
    rw [InstrumentTable.find_modify]
    by_cases same : other = code
    · subst same
      rw [found, if_pos rfl, Option.map_some, if_pos (InstrumentTable.code_of_find found)]
    · rw [if_neg same]
      cases there : state.table.find other with
      | none => rfl
      | some row =>
        have named := InstrumentTable.code_of_find there
        rw [Option.map_some, if_neg (named ▸ same)]

/-- One entry of the forward pass reaches the row of its code, which must be in scope. -/
theorem syncInstrument_find (done : syncInstrument scope asOf (code, instrument) state = .ok final) :
    (∀ row, state.table.find code = some row → row.key ∈ scope) ∧
      ∀ other, final.table.find other = if other = code
        then forwardRow code (state.table.find code) (some instrument) else state.table.find other := by
  unfold syncInstrument at done
  cases found : lookup scope state.table code with
  | none =>
    simp only [found] at done
    have fresh := (@insertInstrument_find state final asOf code code instrument done).1
    rw [fresh]
    exact ⟨nofun, fun other => (insertInstrument_find done).2⟩
  | some row =>
    simp only [found] at done
    obtain ⟨there, inScope⟩ := Option.filter_eq_some_iff.mp found
    rw [there]
    refine ⟨?_, fun other => updateInstrument_find there done⟩
    rintro row ⟨⟩
    simpa using inScope

theorem syncForward_cons {entry : String × Instrument}
    (done : syncForward scope asOf (entry :: entries) state = .ok final) :
    ∃ next, syncInstrument scope asOf entry state = .ok next ∧
      syncForward scope asOf entries next = .ok final := by
  unfold syncForward at done
  cases first : syncInstrument scope asOf entry state with
  | error error =>
    rw [first] at done
    cases done
  | ok next =>
    rw [first] at done
    exact ⟨next, rfl, done⟩

theorem syncForward_find (distinct : (entries.map (·.1)).Nodup)
    (done : syncForward scope asOf entries state = .ok final) (code : String) :
    final.table.find code = forwardRow code (state.table.find code) (find code entries) ∧
      ∀ instrument row, find code entries = some instrument →
        state.table.find code = some row → row.key ∈ scope := by
  induction entries generalizing state with
  | nil =>
    cases done
    refine ⟨rfl, ?_⟩
    rintro _ _ ⟨⟩
  | cons entry entries ih =>
    obtain ⟨first, instrument⟩ := entry
    obtain ⟨next, once, later⟩ := syncForward_cons done
    obtain ⟨inScope, reached⟩ := syncInstrument_find once
    obtain ⟨fresh, distinct⟩ := nodup_cons.mp distinct
    obtain ⟨rows, scopes⟩ := ih distinct later
    unfold find
    by_cases same : first = code
    · subst same
      have absent : find first entries = none := by
        cases there : find first entries with
        | none => rfl
        | some other => exact absurd (mem_map_of_mem (mem_of_find there)) fresh
      rw [if_pos rfl, rows, absent, reached, if_pos rfl]
      refine ⟨rfl, ?_⟩
      intro _ row _ there
      exact inScope row there
    · have other : code ≠ first := fun h => same h.symm
      rw [if_neg same, rows, reached, if_neg other]
      refine ⟨rfl, ?_⟩
      intro found row listed there
      refine scopes found row listed ?_
      rw [reached, if_neg other]
      exact there

theorem discoveredUnderKey_iff : discoveredUnderKey (byCode instruments) row = true ↔
    ∃ instrument, find row.code (byCode instruments) = some instrument ∧
      instrument.key = row.key := by
  unfold discoveredUnderKey
  rw [any_eq_true]
  constructor
  · rintro ⟨entry, member, same⟩
    simp only [Bool.and_eq_true, decide_eq_true_eq] at same
    have found := find_of_mem nodup_byCode member
    rw [same.2] at found
    exact ⟨entry.2, found, same.1⟩
  · rintro ⟨instrument, found, same⟩
    exact ⟨(row.code, instrument), mem_of_find found, by simp [same]⟩

theorem isMissing_iff : isMissing scope (byCode instruments) row = true ↔
    row.key ∈ scope ∧ discoveredUnderKey (byCode instruments) row = false ∧ row.status ≠ .delisted := by
  unfold isMissing
  simp [and_assoc]

/-- The rows before the reverse pass. -/
structure ForwardRows (store : InstrumentStore) (instruments : List Instrument)
    (table : InstrumentTable) : Prop where
  rows : ∀ code, table.find code =
    forwardRow code (store.table.find code) (find code (byCode instruments))
  scope : ∀ code instrument row, find code (byCode instruments) = some instrument →
    store.table.find code = some row → row.key ∈ instruments.map (·.key)

theorem syncWithDiff_passes
    (done : syncWithDiff store instruments asOf delistConfirmRuns = .ok (next, result)) :
    (instruments ≠ [] → 1 ≤ delistConfirmRuns) ∧
      ∃ forward : SyncState, ForwardRows store instruments forward.table ∧
        (∀ code, next.table.find code = (forward.table.find code).map fun row =>
          if isMissing (instruments.map (·.key)) (byCode instruments) row
            then row.miss asOf delistConfirmRuns else row) ∧
        ∀ code ∈ result.delisted ++ result.pendingDelist, ∃ row, forward.table.find code = some row ∧
            isMissing (instruments.map (·.key)) (byCode instruments) row = true := by
  unfold syncWithDiff at done
  split at done
  · rename_i nothing
    cases done
    subst nothing
    refine ⟨fun some_discovered => absurd rfl some_discovered,
      { table := store.table, names := store.names, result := {} }, ⟨fun _ => rfl, nofun⟩, ?_, ?_⟩
    · intro code
      have stays : ∀ row : InstrumentRow, isMissing [] (byCode []) row = false := fun row => by
        simp [isMissing]
      simp [stays]
    · exact forall_mem_nil _
  · split at done
    · cases done
    · rename_i enough
      cases passed : syncForward (instruments.map (·.key)) asOf (byCode instruments)
          { table := store.table, names := store.names, result := {} } with
      | error error =>
        simp only [passed] at done
        cases done
      | ok forward =>
        simp only [passed] at done
        cases done
        refine ⟨fun _ => by omega, forward, ⟨?_, ?_⟩, fun code => ?_, ?_⟩
        · exact fun code => (syncForward_find nodup_byCode passed code).1
        · exact fun code => (syncForward_find nodup_byCode passed code).2
        · apply @InstrumentTable.find_modify forward.table
          intro row
          split
          · exact InstrumentRow.code_miss _ _
          · rfl
        · intro code member
          have counted : ∃ row ∈ forward.table.rows.filter
              (isMissing (instruments.map (·.key)) (byCode instruments)), row.code = code := by
            rcases mem_append.mp member with final | pending
            · obtain ⟨row, there, same⟩ := mem_map.mp final
              exact ⟨row, (mem_filter.mp there).1, same⟩
            · obtain ⟨row, there, same⟩ := mem_map.mp pending
              exact ⟨row, (mem_filter.mp there).1, same⟩
          obtain ⟨row, there, rfl⟩ := counted
          obtain ⟨there, missing⟩ := mem_filter.mp there
          exact ⟨row, InstrumentTable.find_of_mem there, missing⟩

/-- A code that is not discovered: its row is counted as missing if it is in scope. -/
theorem syncWithDiff_absent
    (done : syncWithDiff store instruments asOf delistConfirmRuns = .ok (next, result))
    (absent : find code (byCode instruments) = none) :
    next.table.find code = (store.table.find code).map fun row =>
      if row.key ∈ instruments.map (·.key) ∧ row.status ≠ .delisted
        then row.miss asOf delistConfirmRuns else row := by
  obtain ⟨-, forward, forwards, reversed, -⟩ := syncWithDiff_passes done
  rw [reversed, forwards.rows, absent]
  cases found : store.table.find code with
  | none => rfl
  | some row =>
    have unknown : discoveredUnderKey (byCode instruments) row = false := by
      rw [← Bool.not_eq_true, discoveredUnderKey_iff, InstrumentTable.code_of_find found, absent]
      rintro ⟨_, there, _⟩
      cases there
    simp only [forwardRow, Option.map_some, isMissing_iff, unknown, true_and]

theorem syncWithDiff_delisted
    (done : syncWithDiff store instruments asOf delistConfirmRuns = .ok (next, result))
    (found : store.table.find code = some row) (delisted : row.status = .delisted) :
    ∃ after, next.table.find code = some after ∧ after.status = .delisted := by
  obtain ⟨-, forward, forwards, reversed, -⟩ := syncWithDiff_passes done
  have reached : ∃ middle, forward.table.find code = some middle ∧ middle.status = .delisted := by
    rw [forwards.rows, found]
    cases find code (byCode instruments) with
    | none => exact ⟨row, rfl, delisted⟩
    | some instrument => exact ⟨row.update instrument, rfl, delisted⟩
  obtain ⟨middle, there, status⟩ := reached
  have counted : isMissing (instruments.map (·.key)) (byCode instruments) middle = false := by
    rw [← Bool.not_eq_true, isMissing_iff]
    exact fun missing => missing.2.2 status
  rw [reversed, there, Option.map_some, counted]
  exact ⟨middle, rfl, status⟩

end Call

/-- The arguments of a call. -/
structure SyncCall where
  instruments : List Instrument
  asOf : ℤ

namespace SyncCall

/-- The scope of a call has a market and type. -/
def covers (key : String × String) (call : SyncCall) : Bool := key ∈ call.instruments.map (·.key)

def codes (call : SyncCall) : List String := call.instruments.map (·.code)

end SyncCall

/-- No code is discovered under another market or type than its row in scope has. -/
def Unreclassified (store : InstrumentStore) (call : SyncCall) : Prop :=
  ∀ row ∈ store.table.rows, call.covers row.key = true →
    ∀ instrument ∈ find row.code (byCode call.instruments), instrument.key = row.key

instance (store : InstrumentStore) (call : SyncCall) : Decidable (Unreclassified store call) :=
  inferInstanceAs (Decidable (∀ row ∈ store.table.rows, call.covers row.key = true →
    ∀ instrument ∈ find row.code (byCode call.instruments), instrument.key = row.key))

/-- The calls that returned, each from the store the one before it left. -/
inductive SyncRun (delistConfirmRuns : ℤ) (Allowed : InstrumentStore → SyncCall → Prop)
    (start : InstrumentStore) : List SyncCall → InstrumentStore → Prop
  | start : SyncRun delistConfirmRuns Allowed start [] start
  | call {calls : List SyncCall} {store next : InstrumentStore} {call : SyncCall}
      {result : InstrumentSyncResult} : SyncRun delistConfirmRuns Allowed start calls store →
      Allowed store call →
      syncWithDiff store call.instruments call.asOf delistConfirmRuns = .ok (next, result) →
      SyncRun delistConfirmRuns Allowed start (calls ++ [call]) next

/-- No row has missed a run yet. -/
def Fresh (store : InstrumentStore) : Prop :=
  ∀ row ∈ store.table.rows, row.status ≠ .delisted → row.missingRuns = 0

def IsDelisted (store : InstrumentStore) (code : String) : Prop :=
  ∃ row, store.table.find code = some row ∧ row.status = .delisted

/-- The last calls that cover a market and type, as many as the bound says, lack a code. -/
def AbsentThrough (delistConfirmRuns : ℤ) (calls : List SyncCall) (key : String × String)
    (code : String) : Prop :=
  delistConfirmRuns ≤ (calls.filter (·.covers key)).length ∧
    ∀ call ∈ (calls.filter (·.covers key)).rtake delistConfirmRuns.toNat, code ∉ call.codes

/-- What delisting promises of the last one of a sequence of calls. -/
structure DelistingSound (delistConfirmRuns : ℤ) (calls : List SyncCall) (call : SyncCall)
    (store next : InstrumentStore) (result : InstrumentSyncResult) : Prop where
  /-- A row becomes delisted exactly if it is absent from this run and from the ones before it. -/
  becomes : ∀ code row, next.table.find code = some row → ¬IsDelisted store code →
    (IsDelisted next code ↔ call.covers row.key = true ∧
      AbsentThrough delistConfirmRuns (calls ++ [call]) row.key code)
  /-- A discovered code is not counted as missing. -/
  discovered : ∀ code ∈ call.codes, code ∉ result.pendingDelist ∧ code ∉ result.delisted ∧
    ∃ row, next.table.find code = some row ∧ row.missingRuns = 0
  /-- A delisted row stays delisted. -/
  stays : ∀ code, IsDelisted store code → IsDelisted next code

section Runs

variable {store next start : InstrumentStore} {calls : List SyncCall} {call : SyncCall}
  {delistConfirmRuns : ℤ} {result : InstrumentSyncResult} {row : InstrumentRow} {code : String}
  {key : String × String}

/-- The runs that cover a market and type without a code, up to the last one with it. -/
def absence (calls : List SyncCall) (key : String × String) (code : String) : ℕ :=
  streak (fun call => code ∉ call.codes) (calls.filter (·.covers key))

theorem absence_of_covers (covers : call.covers key = true) (absent : code ∉ call.codes) :
    absence (calls ++ [call]) key code = absence calls key code + 1 := by
  unfold absence
  rw [filter_append, filter_singleton, covers]
  exact streak_concat_pos (by simpa using absent)

theorem absence_of_discovered (covers : call.covers key = true) (member : code ∈ call.codes) :
    absence (calls ++ [call]) key code = 0 := by
  unfold absence
  rw [filter_append, filter_singleton, covers]
  exact streak_concat_neg (by simpa using member)

theorem absence_of_uncovered (covers : call.covers key = false) :
    absence (calls ++ [call]) key code = absence calls key code := by
  unfold absence
  rw [filter_append, filter_singleton, covers]
  simp

theorem absentThrough_iff (enough : 1 ≤ delistConfirmRuns) :
    AbsentThrough delistConfirmRuns calls key code ↔ delistConfirmRuns ≤ absence calls key code := by
  have bound : delistConfirmRuns ≤ absence calls key code ↔
      delistConfirmRuns.toNat ≤ absence calls key code := by omega
  unfold AbsentThrough
  rw [bound, absence, le_streak_iff]
  have length : delistConfirmRuns ≤ (calls.filter (·.covers key)).length ↔
      delistConfirmRuns.toNat ≤ (calls.filter (·.covers key)).length := by omega
  rw [length]
  simp

/-- A discovered code has a row under its market and type that is not counted as missing. -/
theorem syncWithDiff_discovered {instrument : Instrument} (clear : Unreclassified store call)
    (done : syncWithDiff store call.instruments call.asOf delistConfirmRuns = .ok (next, result))
    (found : find code (byCode call.instruments) = some instrument) :
    code ∉ result.delisted ++ result.pendingDelist ∧ ∃ row, next.table.find code = some row ∧
      row.missingRuns = 0 ∧ row.key = instrument.key ∧
        (row.status = .delisted → IsDelisted store code) := by
  obtain ⟨-, forward, forwards, reversed, counted⟩ := syncWithDiff_passes done
  have reached : ∃ row, forward.table.find code = some row ∧ row.missingRuns = 0 ∧
      row.key = instrument.key ∧ (row.status = .delisted → IsDelisted store code) := by
    rw [forwards.rows, found]
    cases there : store.table.find code with
    | none => exact ⟨_, rfl, rfl, rfl, nofun⟩
    | some row =>
      have named := InstrumentTable.code_of_find there
      have same := clear row (mem_of_find?_eq_some there)
        (by simpa [SyncCall.covers] using forwards.scope code instrument row found there) instrument
        (named ▸ found)
      exact ⟨_, rfl, rfl, same.symm, fun delisted => ⟨row, there, delisted⟩⟩
  obtain ⟨row, there, zero, same, status⟩ := reached
  have clean : isMissing (call.instruments.map (·.key)) (byCode call.instruments) row = false := by
    have known : discoveredUnderKey (byCode call.instruments) row = true := by
      rw [discoveredUnderKey_iff, InstrumentTable.code_of_find there]
      exact ⟨instrument, found, same.symm⟩
    rw [← Bool.not_eq_true, isMissing_iff, known]
    simp
  refine ⟨?_, row, ?_, zero, same, status⟩
  · intro member
    obtain ⟨other, there', missing⟩ := counted code member
    rw [there] at there'
    obtain rfl := Option.some.inj there'
    rw [clean] at missing
    cases missing
  · rw [reversed, there, Option.map_some, clean]
    rfl

theorem covers_of_find {instrument : Instrument}
    (found : find code (byCode call.instruments) = some instrument) :
    call.covers instrument.key = true ∧ code ∈ call.codes := by
  obtain ⟨member, named⟩ := mem_of_find_byCode found
  have covered : instrument.key ∈ call.instruments.map (·.key) := mem_map_of_mem member
  exact ⟨by simpa [SyncCall.covers] using covered, mem_map.mpr ⟨instrument, member, named⟩⟩

/-- The counter of a row that is not delisted is its absence, and below the bound. -/
def Counts (delistConfirmRuns : ℤ) (calls : List SyncCall) (store : InstrumentStore) : Prop :=
  ∀ code row, store.table.find code = some row → row.status ≠ .delisted →
    row.missingRuns = absence calls row.key code ∧
      (1 ≤ delistConfirmRuns → row.missingRuns < delistConfirmRuns)

theorem Fresh.counts (fresh : Fresh start) : Counts delistConfirmRuns [] start := by
  intro code row found listed
  have zero := fresh row (mem_of_find?_eq_some found) listed
  rw [zero]
  exact ⟨rfl, fun enough => by omega⟩

theorem Counts.after (counts : Counts delistConfirmRuns calls store) (clear : Unreclassified store call)
    (done : syncWithDiff store call.instruments call.asOf delistConfirmRuns = .ok (next, result)) :
    Counts delistConfirmRuns (calls ++ [call]) next := by
  intro code after reached listed
  cases found : find code (byCode call.instruments) with
  | some instrument =>
    obtain ⟨-, row, there, zero, same, -⟩ := syncWithDiff_discovered clear done found
    rw [reached] at there
    obtain rfl := Option.some.inj there
    obtain ⟨covers, member⟩ := covers_of_find found
    rw [zero, same, absence_of_discovered covers member]
    exact ⟨rfl, fun enough => by omega⟩
  | none =>
    have absent := find_byCode_eq_none.mp found
    rw [syncWithDiff_absent done found] at reached
    obtain ⟨row, there, changed⟩ := Option.map_eq_some_iff.mp reached
    by_cases covered : row.key ∈ call.instruments.map (·.key)
    · by_cases delisted : row.status = .delisted
      · rw [if_neg (fun both => both.2 delisted)] at changed
        subst changed
        exact absurd delisted listed
      · rw [if_pos ⟨covered, delisted⟩] at changed
        subst changed
        obtain ⟨count, -⟩ := counts code row there delisted
        rw [ne_eq, InstrumentRow.status_miss delisted] at listed
        rw [InstrumentRow.missingRuns_miss, InstrumentRow.key_miss,
          absence_of_covers (by simpa [SyncCall.covers] using covered) absent, count]
        refine ⟨rfl, fun _ => ?_⟩
        rw [count] at listed
        push_cast
        omega
    · rw [if_neg (fun both => covered both.1)] at changed
      subst changed
      obtain ⟨count, below⟩ := counts code row there listed
      rw [absence_of_uncovered (by simpa [SyncCall.covers] using covered)]
      exact ⟨count, below⟩

theorem SyncRun.counts (fresh : Fresh start)
    (run : SyncRun delistConfirmRuns Unreclassified start calls store) :
    Counts delistConfirmRuns calls store := by
  induction run with
  | start => exact fresh.counts
  | call _ clear done ih => exact Counts.after ih clear done

theorem Counts.becomes (counts : Counts delistConfirmRuns calls store) (clear : Unreclassified store call)
    (done : syncWithDiff store call.instruments call.asOf delistConfirmRuns = .ok (next, result))
    (reached : next.table.find code = some row) (listed : ¬IsDelisted store code) :
    IsDelisted next code ↔ call.covers row.key = true ∧
      AbsentThrough delistConfirmRuns (calls ++ [call]) row.key code := by
  have delisted_iff : IsDelisted next code ↔ row.status = .delisted := by
    unfold IsDelisted
    rw [reached]
    simp
  rw [delisted_iff]
  cases found : find code (byCode call.instruments) with
  | some instrument =>
    obtain ⟨-, row', there, -, same, status⟩ := syncWithDiff_discovered clear done found
    rw [reached] at there
    obtain rfl := Option.some.inj there
    obtain ⟨covers, member⟩ := covers_of_find found
    have enough : 1 ≤ delistConfirmRuns := by
      apply (syncWithDiff_passes done).1
      rintro nothing
      rw [SyncCall.codes, nothing] at member
      cases member
    refine iff_of_false (fun delisted => listed (status delisted)) ?_
    rw [absentThrough_iff enough, same, absence_of_discovered covers member]
    rintro ⟨-, short⟩
    omega
  | none =>
    have absent := find_byCode_eq_none.mp found
    rw [syncWithDiff_absent done found] at reached
    obtain ⟨before, there, changed⟩ := Option.map_eq_some_iff.mp reached
    have open_before : before.status ≠ .delisted := fun delisted => listed ⟨before, there, delisted⟩
    by_cases covered : before.key ∈ call.instruments.map (·.key)
    · rw [if_pos ⟨covered, open_before⟩] at changed
      subst changed
      have covers : call.covers before.key = true := by simpa [SyncCall.covers] using covered
      have enough : 1 ≤ delistConfirmRuns := by
        apply (syncWithDiff_passes done).1
        rintro nothing
        rw [nothing] at covered
        cases covered
      obtain ⟨count, -⟩ := counts code before there open_before
      rw [InstrumentRow.status_miss open_before, InstrumentRow.key_miss, covers,
        absentThrough_iff enough, absence_of_covers covers absent, count]
      push_cast
      simp
    · rw [if_neg (fun both => covered both.1)] at changed
      subst changed
      have uncovered : call.covers before.key = false := by
        simpa [SyncCall.covers] using covered
      refine iff_of_false open_before ?_
      rw [uncovered]
      rintro ⟨⟨⟩, _⟩

/-- In a run that discovers no code under another market or type than its row in scope has, every
call delists what was absent often enough and nothing else. -/
theorem delistingSound_of_syncRun (fresh : Fresh start)
    (run : SyncRun delistConfirmRuns Unreclassified start calls store) (clear : Unreclassified store call)
    (done : syncWithDiff store call.instruments call.asOf delistConfirmRuns = .ok (next, result)) :
    DelistingSound delistConfirmRuns calls call store next result where
  becomes _ _ reached listed := (run.counts fresh).becomes clear done reached listed
  discovered code member := by
    cases found : find code (byCode call.instruments) with
    | none => exact absurd member (find_byCode_eq_none.mp found)
    | some instrument =>
      obtain ⟨uncounted, row, there, zero, -⟩ := syncWithDiff_discovered clear done found
      rw [mem_append, not_or] at uncounted
      exact ⟨uncounted.2, uncounted.1, row, there, zero⟩
  stays _ := by
    rintro ⟨row, found, delisted⟩
    exact syncWithDiff_delisted done found delisted

end Runs

section Examples

def emptyStore : InstrumentStore where
  table := { rows := [], unique := nodup_nil }
  names := []

def stock : Instrument := { code := "600000", name := "bank" }

def fund : Instrument := { code := "510300", name := "index fund" }

def firstCall : SyncCall := { instruments := [stock, fund], asOf := 739000 }

/-- The fund is discovered under its own type. -/
def secondCall : SyncCall :=
  { instruments := [stock, { fund with instrumentType := "etf" }], asOf := 739001 }

/-- The fund is not discovered. -/
def thirdCall : SyncCall := { instruments := [stock], asOf := 739002 }

def afterCall (store : InstrumentStore) (call : SyncCall) : InstrumentStore × InstrumentSyncResult :=
  ((syncWithDiff store call.instruments call.asOf 2).toOption).getD (store, {})

theorem afterCall_eq {store : InstrumentStore} {call : SyncCall}
    (returns : (syncWithDiff store call.instruments call.asOf 2).toOption.isSome = true) :
    syncWithDiff store call.instruments call.asOf 2 = .ok (afterCall store call) := by
  unfold afterCall
  cases done : syncWithDiff store call.instruments call.asOf 2 with
  | error error =>
    rw [done] at returns
    cases returns
  | ok after => rfl

def firstStore : InstrumentStore := (afterCall emptyStore firstCall).1

def missingStore : InstrumentStore := (afterCall firstStore thirdCall).1

theorem delistingSound_missing : DelistingSound 2 [firstCall, thirdCall] thirdCall missingStore
      (afterCall missingStore thirdCall).1 (afterCall missingStore thirdCall).2 := by
  have fresh : Fresh emptyStore := nofun
  have first : SyncRun 2 Unreclassified emptyStore ([] ++ [firstCall]) firstStore :=
    SyncRun.start.call (by decide) (afterCall_eq (by decide))
  have second : SyncRun 2 Unreclassified emptyStore ([firstCall] ++ [thirdCall]) missingStore :=
    first.call (by decide) (afterCall_eq (by decide))
  exact delistingSound_of_syncRun fresh second (by decide) (afterCall_eq (by decide))

/-- The fund is discovered by the second call, which counts it as missing; it is delisted by the
third one although it is absent from that one only. -/
theorem discovered_fund_delisted :
    "510300" ∈ secondCall.codes ∧
      "510300" ∈ (afterCall firstStore secondCall).2.pendingDelist ∧
      "510300" ∈ (afterCall (afterCall firstStore secondCall).1 thirdCall).2.delisted ∧
      ¬DelistingSound 2 [firstCall] secondCall firstStore (afterCall firstStore secondCall).1
        (afterCall firstStore secondCall).2 := by
  have counted : "510300" ∈ (afterCall firstStore secondCall).2.pendingDelist := by decide
  refine ⟨by decide, counted, by decide, ?_⟩
  intro sound
  exact (sound.discovered "510300" (by decide)).1 counted

end Examples

end FinDashboard.Instruments
