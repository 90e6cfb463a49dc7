import FinDashboard.Ledger.CountedCache
import FinDashboard.Runs.Guarded
import Mathlib.Algebra.Order.Group.Int
import Mathlib.Algebra.Order.Monoid.Prod

/-!
# The read cache

What is read from a file is kept in memory, up to a number of elements and of bytes. A read that misses
waits for the file before it keeps what it read, so that two reads of one key can both miss.
-/

namespace FinDashboard.ParquetCache

open Ledger (CountedCache find total)
open Runs (Guarded Parties TurnMeets turn)

inductive ReadKind
  | bars
  | closePoints
  | closeColumns
  | closeColumnsOpen
deriving DecidableEq, Repr

def ReadKind.bytesPerElement : ReadKind → ℕ
  | .bars => 800
  | .closePoints => 224
  | .closeColumns => 64
  | .closeColumnsOpen => 64

structure FileStat where
  size : ℕ
  mtimeNs : ℤ
deriving DecidableEq, Repr

/-- `_read_cache_key`. -/
structure ReadKey where
  path : String
  stat : FileStat
  kind : ReadKind
deriving DecidableEq, Repr

/-- What an entry of the read cache is counted with. -/
structure ReadEntry where
  elements : ℕ
  approxBytes : ℕ
deriving DecidableEq, Repr

def ReadEntry.ofElements (kind : ReadKind) (elements : ℕ) : ReadEntry where
  elements := elements
  approxBytes := elements * kind.bytesPerElement

/-- The configured limits; no limit of bytes by default. -/
structure ReadLimits where
  maxElements : ℕ := 2000000
  maxBytes : Option ℕ := none

def ReadEntry.cost (entry : ReadEntry) : ℤ × ℤ := (entry.elements, entry.approxBytes)

def ReadLimits.allow (limits : ReadLimits) (used : ℤ × ℤ) : Bool :=
  used.1 ≤ limits.maxElements && limits.maxBytes.all fun maxBytes => used.2 ≤ maxBytes

/-- The entries, and `_read_cache_elements` and `_read_cache_bytes`. -/
abbrev ReadCache := CountedCache ReadKey ReadEntry (ℤ × ℤ)

/-- `_read_cache_put`. -/
def ReadCache.put (limits : ReadLimits) (key : ReadKey) (entry : ReadEntry) (cache : ReadCache) : ReadCache :=
  CountedCache.put ReadEntry.cost limits.allow key entry cache

/-- `_read_cache_drop_path`. -/
def ReadCache.dropPath (path : String) (cache : ReadCache) : ReadCache :=
  CountedCache.drop ReadEntry.cost (fun key => decide (key.path = path)) cache

/-- A call of one of the reads, or of `write` with some bars. -/
inductive CacheCall
  | read (path : String) (kind : ReadKind)
  | write (path : String)

inductive CallProgress
  | idle
  | reading (key : ReadKey)
  | writing
  | done
deriving DecidableEq, Repr

/-- A call begins with a look at the file, and its work in the thread ends, or fails. -/
inductive CacheEvent
  | begin (stat : Option FileStat)
  | finish (elements : ℕ)
  | fail

variable {ι : Type}

/-- A call runs up to its next wait. -/
def callTurn (limits : ReadLimits) (calls : ι → CacheCall) (i : ι) (event : CacheEvent) (cache : ReadCache)
    (progress : CallProgress) : ReadCache × CallProgress :=
  match calls i, progress, event with
  | .read _ _, .idle, .begin none => (cache, .done)
  | .read path kind, .idle, .begin (some stat) =>
      if (find ⟨path, stat, kind⟩ cache.entries).isSome then (cache.touch ⟨path, stat, kind⟩, .done)
      else (cache, .reading ⟨path, stat, kind⟩)
  | .read _ _, .reading key, .finish elements =>
      (ReadCache.put limits key (.ofElements key.kind elements) cache, .done)
  | .write _, .idle, .begin _ => (cache, .writing)
  | .write path, .writing, .finish _ => (cache.dropPath path, .done)
  | .read _ _, .reading _, .fail => (cache, .done)
  | .write _, .writing, .fail => (cache, .done)
  | _, progress, _ => (cache, progress)

/-- The cache, and the calls that share it. -/
abbrev CacheState (ι : Type) := Parties ι ReadCache CallProgress

def CacheState.start : CacheState ι := ⟨CountedCache.empty, fun _ => .idle⟩

/-- The counters are those of the entries and within their limits, and no key is held twice. -/
structure Accounted (limits : ReadLimits) (cache : ReadCache) : Prop where
  keyed : (cache.entries.map (·.1)).Nodup
  elements : cache.used.1 = total (fun item => (item.2.elements : ℤ)) cache.entries
  bytes : cache.used.2 = total (fun item => (item.2.approxBytes : ℤ)) cache.entries
  elements_le : cache.used.1 ≤ limits.maxElements
  bytes_le : ∀ maxBytes ∈ limits.maxBytes, cache.used.2 ≤ maxBytes
  nothing : cache.entries = [] → cache.used = (0, 0)

def AccountedState (limits : ReadLimits) (state : CacheState ι) : Prop := Accounted limits state.shared

/-- A read that keeps an entry finds its key free: not held after the evictions, or by an empty entry. -/
def KeepsFree (limits : ReadLimits) (calls : ι → CacheCall) (i : ι) (event : CacheEvent) (cache : ReadCache)
    (progress : CallProgress) : Prop :=
  match calls i, progress, event with
  | .read _ _, .reading key, .finish elements =>
      CountedCache.Free ReadEntry.cost limits.allow key (.ofElements key.kind elements) cache
  | _, _, _ => True

variable {limits : ReadLimits} {cache : ReadCache}

theorem allow_iff {used : ℤ × ℤ} : limits.allow used = true ↔
    used.1 ≤ limits.maxElements ∧ ∀ maxBytes ∈ limits.maxBytes, used.2 ≤ maxBytes := by
  unfold ReadLimits.allow
  cases limits.maxBytes with
  | none => simp
  | some maxBytes => simp

theorem allow_of_le {less more : ℤ × ℤ} (le : less ≤ more) (allowed : limits.allow more = true) :
    limits.allow less = true := by
  obtain ⟨elements, bytes⟩ := allow_iff.mp allowed
  exact allow_iff.mpr ⟨le.1.trans elements, fun maxBytes given => le.2.trans (bytes maxBytes given)⟩

theorem cost_nonneg (entry : ReadEntry) : 0 ≤ entry.cost := by
  constructor
  · exact Int.natCast_nonneg _
  · exact Int.natCast_nonneg _

theorem total_cost (entries : List (ReadKey × ReadEntry)) : total (fun item => item.2.cost) entries =
    (total (fun item => (item.2.elements : ℤ)) entries, total (fun item => (item.2.approxBytes : ℤ)) entries) := by
  induction entries with
  | nil => rfl
  | cons item rest ih =>
    rw [Ledger.total_cons, ih]
    simp [ReadEntry.cost]

theorem accounted_iff : Accounted limits cache ↔ cache.Sound ReadEntry.cost limits.allow := by
  constructor
  · rintro ⟨keyed, elements, bytes, within, bytesWithin, -⟩
    refine ⟨keyed, ?_, allow_iff.mpr ⟨within, bytesWithin⟩⟩
    rw [CountedCache.Counted, total_cost]
    exact Prod.ext elements bytes
  · intro sound
    have counted : cache.used = total (fun item => item.2.cost) cache.entries := sound.counted
    rw [total_cost] at counted
    obtain ⟨within, bytesWithin⟩ := allow_iff.mp sound.fitting
    exact ⟨sound.keyed, congrArg Prod.fst counted, congrArg Prod.snd counted, within, bytesWithin,
      sound.used_eq_zero⟩

theorem accounted_put_iff (accounted : Accounted limits cache) (key : ReadKey) (entry : ReadEntry) :
    Accounted limits (ReadCache.put limits key entry cache) ↔
      CountedCache.Free ReadEntry.cost limits.allow key entry cache := by
  rw [accounted_iff] at accounted ⊢
  constructor
  · intro put
    exact (CountedCache.counted_put_iff accounted.counted limits.allow key entry).mp put.counted
  · exact accounted.put

theorem Accounted.dropPath (accounted : Accounted limits cache) (path : String) :
    Accounted limits (cache.dropPath path) := by
  rw [accounted_iff] at accounted ⊢
  exact accounted.drop cost_nonneg allow_of_le _

theorem Accounted.touch (accounted : Accounted limits cache) (key : ReadKey) :
    Accounted limits (cache.touch key) := by
  rw [accounted_iff] at accounted ⊢
  exact accounted.touch key

variable {calls : ι → CacheCall}

theorem accounted_callTurn_iff (accounted : Accounted limits cache) (i : ι) (event : CacheEvent)
    (progress : CallProgress) : Accounted limits (callTurn limits calls i event cache progress).1 ↔
      KeepsFree limits calls i event cache progress := by
  unfold callTurn KeepsFree
  cases calls i with
  | read path kind => cases progress with
    | idle => cases event with
      | begin stat => cases stat with
        | none => simp [accounted]
        | some stat =>
          simp only [iff_true]
          split
          · exact accounted.touch _
          · exact accounted
      | finish elements => simp [accounted]
      | fail => simp [accounted]
    | reading key => cases event with
      | begin stat => simp [accounted]
      | finish elements => exact accounted_put_iff accounted key _
      | fail => simp [accounted]
    | writing => simp [accounted]
    | done => simp [accounted]
  | write path => cases progress with
    | idle => cases event with
      | begin stat => simp [accounted]
      | finish elements => simp [accounted]
      | fail => simp [accounted]
    | reading key => simp [accounted]
    | writing => cases event with
      | begin stat => simp [accounted]
      | finish elements => simp [accounted.dropPath]
      | fail => simp [accounted]
    | done => simp [accounted]

/-- In every run of concurrent calls, the counters account for the entries after every turn exactly if every
read that keeps an entry finds its key free. -/
theorem read_cache_accounted_iff [DecidableEq ι] (limits : ReadLimits) (calls : ι → CacheCall)
    (turns : List (ι × CacheEvent)) : Guarded (turn (callTurn limits calls))
        (fun state event => AccountedState limits (turn (callTurn limits calls) state event))
        CacheState.start turns ↔
      Guarded (turn (callTurn limits calls)) (TurnMeets (KeepsFree limits calls)) CacheState.start turns := by
  have start : AccountedState limits (CacheState.start : CacheState ι) := by
    rw [AccountedState, accounted_iff]
    exact ⟨List.nodup_nil, rfl, allow_iff.mpr ⟨Int.natCast_nonneg _, fun maxBytes _ => Int.natCast_nonneg maxBytes⟩⟩
  apply Guarded.iff_of_guarded_invariant start
  · exact fun state event accounted => accounted_callTurn_iff accounted event.1 event.2 (state.own event.1)
  · intro state event accounted free
    exact (accounted_callTurn_iff accounted event.1 event.2 (state.own event.1)).mpr free

/-- Two reads of one file miss together: its three bars are counted twice. -/
theorem concurrent_misses_counted_twice :
    let final := Runs.run (turn (callTurn {} fun _ : Bool => .read "510300.SH_1d_qfq.parquet" .bars)) CacheState.start
      [(true, .begin (some ⟨1000, 1⟩)), (false, .begin (some ⟨1000, 1⟩)), (true, .finish 3), (false, .finish 3)]
    final.shared.used = (6, 4800) ∧
      final.shared.entries = [(⟨"510300.SH_1d_qfq.parquet", ⟨1000, 1⟩, .bars⟩, ⟨3, 2400⟩)] := by
  decide

end FinDashboard.ParquetCache
