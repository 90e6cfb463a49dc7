import FinDashboard.ParquetCache.Merges
import FinDashboard.Tushare.BarCache
import Mathlib.Data.List.Pairwise

/-!
# Fetching bars through the cache

A call that finds the last cached bar late enough answers from the cache, and any other call fetches from
a week before that bar on. So what a call leaves out of its fetch has to be in the cache already, and the
cache does not know that it is.
-/

namespace FinDashboard.ParquetCache

open List

open Tushare (Request)

/-- `timestamp.date()` of a bar. -/
def Bar.date (bar : Bar) : ℤ := dateOf bar.timestamp

/-- The bars the remote source has, one for each time; the times are as the cache reads them. -/
structure Source (key : SeriesKey) where
  bars : List Bar
  distinct : (bars.map (·.timestamp)).Nodup
  timed : ∀ bar ∈ bars, key.normalise bar.timestamp = bar.timestamp

variable {key : SeriesKey}

/-- `_fetch_from_akshare`: the bars of the dates asked for, by their times. -/
def Source.fetch (source : Source key) (start last : ℤ) : List Bar :=
  sortBars (source.bars.filter fun bar => start ≤ bar.date ∧ bar.date ≤ last)

def filterByDate (bars : List Bar) (start last : ℤ) : List Bar :=
  bars.filter fun bar => start ≤ bar.date ∧ bar.date ≤ last

def isCacheComplete (cached : List Bar) (request : Request) : Bool :=
  cached.getLast?.any fun bar => request.effectiveEnd ≤ bar.date

def incrementalFetchStart (cached : List Bar) (requestedStart : ℤ) : ℤ :=
  match cached.getLast? with
  | none => requestedStart
  | some bar => max requestedStart (bar.date - 7)

/-- `fetch_bars`: the file after the call, and the bars it returns; without a source the remote call fails. -/
def fetchBars (file : List Bar) (request : Request) (source : Option (Source key)) :
    List Bar × Option (List Bar) :=
  let cached := readBars key file
  if isCacheComplete cached request then (file, some (filterByDate cached request.start request.last))
  else match source with
    | none => (file, none)
    | some source =>
      let fresh := source.fetch (incrementalFetchStart cached request.start) request.last
      if fresh = [] then (file, some (filterByDate cached request.start request.last))
      else
        let merged := mergeBars cached fresh
        (write file merged, some (filterByDate merged request.start request.last))

/-- `update_cache`; bars that end no later than the cache are not merged. -/
def updateCache (file : List Bar) (request : Request) (source : Option (Source key)) :
    List Bar × Option Bool :=
  let cached := readBars key file
  if isCacheComplete cached request then (file, some true)
  else match source with
    | none => (file, none)
    | some source =>
      let fresh := source.fetch (incrementalFetchStart cached request.start) request.last
      if fresh = [] then (file, some (decide (cached ≠ [])))
      else if cached.getLast?.any fun bar => fresh.getLast?.all fun newest => newest.date ≤ bar.date then
        (file, some true)
      else (write file (mergeBars cached fresh), some true)

/-- A call, and what the source has then. -/
inductive ProviderCall (key : SeriesKey)
  | fetchBars (request : Request) (source : Option (Source key))
  | updateCache (request : Request) (source : Option (Source key))

def ProviderCall.perform (file : List Bar) : ProviderCall key → List Bar
  | .fetchBars request source => (ParquetCache.fetchBars file request source).1
  | .updateCache request source => (ParquetCache.updateCache file request source).1

def fileAfter (calls : List (ProviderCall key)) : List Bar := Runs.run ProviderCall.perform [] calls

/-- The times of a file ascend, and are as the cache reads them. -/
structure Sound (key : SeriesKey) (file : List Bar) : Prop where
  timed : ∀ bar ∈ file, key.normalise bar.timestamp = bar.timestamp
  ordered : file.Pairwise fun bar other => bar.timestamp < other.timestamp

theorem Sound.readBars {file : List Bar} (sound : Sound key file) : readBars key file = file := by
  have same : (file.map fun bar => { bar with timestamp := key.normalise bar.timestamp }) = file := by
    calc
      _ = file.map id := map_congr_left fun bar member => by rw [sound.timed bar member, id]
      _ = file := map_id file
  have sorted : file.Pairwise fun bar other => bar.timestamp ≤ other.timestamp :=
    sound.ordered.imp fun {_ _} before => before.le
  rw [ParquetCache.readBars, same, sortBars]
  exact sorted.insertionSort_eq

theorem Sound.only {file : List Bar} (sound : Sound key file) {bar other : Bar} (member : bar ∈ file)
    (listed : other ∈ file) (same : other.timestamp = bar.timestamp) : other = bar := by
  have distinct := pairwise_map.mpr (sound.ordered.imp fun {_ _} before => before.ne)
  exact inj_on_of_nodup_map distinct listed member same

theorem Source.only (source : Source key) {bar other : Bar} (member : bar ∈ source.bars)
    (listed : other ∈ source.bars) (same : other.timestamp = bar.timestamp) : other = bar :=
  inj_on_of_nodup_map source.distinct listed member same

theorem mem_fetch {source : Source key} {start last : ℤ} {bar : Bar} :
    bar ∈ source.fetch start last ↔ bar ∈ source.bars ∧ start ≤ bar.date ∧ bar.date ≤ last := by
  unfold Source.fetch sortBars
  rw [(perm_insertionSort _ _).mem_iff, mem_filter, decide_eq_true_eq]

theorem mem_filterByDate {bars : List Bar} {start last : ℤ} {bar : Bar} :
    bar ∈ filterByDate bars start last ↔ bar ∈ bars ∧ start ≤ bar.date ∧ bar.date ≤ last := by
  rw [filterByDate, mem_filter, decide_eq_true_eq]

theorem write_mergeBars {file fresh : List Bar} (fetched : fresh ≠ []) :
    write file (mergeBars file fresh) = mergeBars file fresh := by
  have merged : ¬mergeBars file fresh = [] := by
    rw [mergeBars_eq_nil, append_eq_nil_iff, not_and]
    exact fun _ => fetched
  rw [write, if_neg merged]

theorem Sound.merge {file : List Bar} (sound : Sound key file) (source : Source key) (start last : ℤ) :
    Sound key (mergeBars file (source.fetch start last)) := by
  constructor
  · intro bar member
    rcases Ledger.mem_of_mem_mergeRows member with old | new
    · exact sound.timed bar old
    · exact source.timed bar (mem_fetch.mp new).1
  · exact Ledger.ordered_mergeRows _ _ _

def fetched (file : List Bar) (request : Request) (source : Source key) : List Bar :=
  source.fetch (incrementalFetchStart file request.start) request.last

theorem fetchBars_file {file : List Bar} (sound : Sound key file) (request : Request) (source : Option (Source key)) :
    (fetchBars file request source).1 = file ∨
      ∃ present ∈ source, (fetchBars file request source).1 = mergeBars file (fetched file request present) := by
  unfold fetchBars
  rw [sound.readBars]
  simp only
  split
  · exact Or.inl rfl
  · cases source with
    | none => exact Or.inl rfl
    | some present =>
      simp only
      split
      · exact Or.inl rfl
      · rename_i some_fresh
        exact Or.inr ⟨present, rfl, write_mergeBars some_fresh⟩

theorem updateCache_file {file : List Bar} (sound : Sound key file) (request : Request)
    (source : Option (Source key)) : (updateCache file request source).1 = file ∨
      ∃ present ∈ source, (updateCache file request source).1 = mergeBars file (fetched file request present) := by
  unfold updateCache
  rw [sound.readBars]
  simp only
  split
  · exact Or.inl rfl
  · cases source with
    | none => exact Or.inl rfl
    | some present =>
      simp only
      split
      · exact Or.inl rfl
      · rename_i some_fresh
        split
        · exact Or.inl rfl
        · exact Or.inr ⟨present, rfl, write_mergeBars some_fresh⟩

def ProviderCall.request : ProviderCall key → Request
  | .fetchBars request _ | .updateCache request _ => request

def ProviderCall.source : ProviderCall key → Option (Source key)
  | .fetchBars _ source | .updateCache _ source => source

theorem perform_file {file : List Bar} (sound : Sound key file) (call : ProviderCall key) :
    call.perform file = file ∨
      ∃ present ∈ call.source, call.perform file = mergeBars file (fetched file call.request present) := by
  cases call with
  | fetchBars request source => exact fetchBars_file sound request source
  | updateCache request source => exact updateCache_file sound request source

theorem Sound.perform {file : List Bar} (sound : Sound key file) (call : ProviderCall key) :
    Sound key (call.perform file) := by
  rcases perform_file sound call with same | ⟨present, -, merged⟩
  · rw [same]
    exact sound
  · rw [merged]
    exact sound.merge present _ _

theorem sound_fileAfter (calls : List (ProviderCall key)) : Sound key (fileAfter calls) :=
  Runs.run_invariant ⟨by simp, List.Pairwise.nil⟩ (fun _ call sound => sound.perform call) calls

/-- After any calls the times of the file ascend, and each bar came from the source of some call. -/
theorem fileAfter_given (calls : List (ProviderCall key)) : Sound key (fileAfter calls) ∧
    ∀ bar ∈ fileAfter calls, ∃ call ∈ calls, ∃ present ∈ call.source, bar ∈ present.bars := by
  refine ⟨sound_fileAfter calls, fun bar cached => ?_⟩
  have traced : ∀ (calls : List (ProviderCall key)) (file : List Bar), Sound key file →
      bar ∈ Runs.run ProviderCall.perform file calls →
      bar ∈ file ∨ ∃ call ∈ calls, ∃ present ∈ call.source, bar ∈ present.bars := by
    intro calls
    induction calls with
    | nil => exact fun _ _ held => .inl held
    | cons call rest ih =>
      intro file sound held
      rcases ih _ (sound.perform call) held with before | ⟨later, member, given⟩
      · rcases perform_file sound call with same | ⟨present, offered, merged⟩
        · exact .inl (same ▸ before)
        · rw [merged] at before
          refine (Ledger.mem_of_mem_mergeRows before).imp_right fun fresh => ?_
          exact ⟨call, mem_cons_self, present, offered, (mem_fetch.mp fresh).1⟩
      · exact .inr ⟨later, mem_cons_of_mem _ member, given⟩
  exact (traced calls [] ⟨by simp, .nil⟩ cached).resolve_left (by simp)

/-- A call does not ask for a date: the last cached bar is late enough for the whole request, or the date
is more than a week before it. -/
def Unasked (file : List Bar) (request : Request) (date : ℤ) : Prop :=
  ∃ tail ∈ file.getLast?, request.effectiveEnd ≤ tail.date ∨ date < tail.date - 7

variable {request : Request}

theorem incrementalFetchStart_le {file : List Bar} {date : ℤ} (asked : ¬Unasked file request date)
    (after : request.start ≤ date) : incrementalFetchStart file request.start ≤ date := by
  unfold incrementalFetchStart
  cases last : file.getLast? with
  | none => exact after
  | some tail =>
    have near : ¬date < tail.date - 7 := fun far => asked ⟨tail, last, Or.inr far⟩
    simp only
    omega

theorem isCacheComplete_iff {file : List Bar} :
    isCacheComplete file request = true ↔ ∃ tail ∈ file.getLast?, request.effectiveEnd ≤ tail.date := by
  unfold isCacheComplete
  cases file.getLast? with
  | none => simp
  | some tail => simp

theorem unfetched {file : List Bar} {source : Source key} {bar : Bar}
    (incomplete : ¬isCacheComplete file request = true) (unasked : Unasked file request bar.date) :
    bar ∉ fetched file request source := by
  intro fresh
  have start := (mem_fetch.mp fresh).2.1
  obtain ⟨tail, last, late | far⟩ := unasked
  · exact incomplete (isCacheComplete_iff.mpr ⟨tail, last, late⟩)
  · rw [incrementalFetchStart, Option.mem_def.mp last] at start
    simp only at start
    omega

/-- Of the source's bars in the request a call returns those it asks for, and those of the file. -/
theorem fetchBars_returns {file : List Bar} (sound : Sound key file) (request : Request) (source : Source key) :
    ∃ bars, (fetchBars file request (some source)).2 = some bars ∧
      ∀ bar ∈ source.bars, request.start ≤ bar.date → bar.date ≤ request.last →
        (bar ∈ bars ↔ (Unasked file request bar.date → bar ∈ file)) := by
  unfold fetchBars
  rw [sound.readBars]
  simp only
  split
  · rename_i complete
    obtain ⟨tail, last, late⟩ := isCacheComplete_iff.mp complete
    refine ⟨_, rfl, fun bar _ after before => ?_⟩
    have unasked : Unasked file request bar.date := ⟨tail, last, Or.inl late⟩
    rw [mem_filterByDate]
    exact ⟨fun member _ => member.1, fun held => ⟨held unasked, after, before⟩⟩
  · have asks : ∀ bar ∈ source.bars, request.start ≤ bar.date → bar.date ≤ request.last →
        ¬Unasked file request bar.date → bar ∈ fetched file request source :=
      fun bar member after before asked =>
        mem_fetch.mpr ⟨member, incrementalFetchStart_le asked after, before⟩
    split
    · rename_i nothing
      refine ⟨_, rfl, fun bar member after before => ?_⟩
      have unasked : Unasked file request bar.date := by
        by_contra asked
        have fresh := asks bar member after before asked
        rw [fetched, nothing] at fresh
        cases fresh
      rw [mem_filterByDate]
      exact ⟨fun member _ => member.1, fun held => ⟨held unasked, after, before⟩⟩
    · rename_i incomplete _
      refine ⟨_, rfl, fun bar member after before => ?_⟩
      rw [mem_filterByDate]
      constructor
      · rintro ⟨merged, -⟩ unasked
        rcases Ledger.mem_of_mem_mergeRows merged with old | new
        · exact old
        · exact absurd new (unfetched incomplete unasked)
      · intro held
        refine ⟨?_, after, before⟩
        by_cases asked : Unasked file request bar.date
        · apply Ledger.mem_mergeRows_of_only (.inl (held asked))
          rintro other (old | new) same
          · exact sound.only (held asked) old same
          · exact source.only member (mem_fetch.mp new).1 same
        · apply Ledger.mem_mergeRows_of_new (asks bar member after before asked)
          exact fun other new same => source.only member (mem_fetch.mp new).1 same

/-- A call returns every bar the source has in the request, up to the last expected date. -/
def Complete (request : Request) (source : Source key) (bars : List Bar) : Prop :=
  ∀ bar ∈ source.bars, request.start ≤ bar.date → bar.date ≤ min request.last request.effectiveEnd → bar ∈ bars

theorem complete_of_cached (calls : List (ProviderCall key)) (request : Request) (source : Source key)
    (cached : ∀ bar ∈ source.bars, request.start ≤ bar.date → bar.date ≤ min request.last request.effectiveEnd →
      Unasked (fileAfter calls) request bar.date → bar ∈ fileAfter calls) :
    ∃ bars, (fetchBars (fileAfter calls) request (some source)).2 = some bars ∧ Complete request source bars := by
  obtain ⟨bars, returned, holds⟩ := fetchBars_returns (sound_fileAfter calls) request source
  refine ⟨bars, returned, fun bar member after before => ?_⟩
  exact (holds bar member after (before.trans (min_le_left _ _))).mpr (cached bar member after before)

/-- After any calls, a fetch is complete exactly if the file holds every bar of the request that the fetch does
not ask for. -/
theorem fetch_complete_iff (calls : List (ProviderCall key)) (request : Request) (source : Source key) :
    (∃ bars, (fetchBars (fileAfter calls) request (some source)).2 = some bars ∧ Complete request source bars) ↔
      ∀ bar ∈ source.bars, request.start ≤ bar.date → bar.date ≤ min request.last request.effectiveEnd →
        Unasked (fileAfter calls) request bar.date → bar ∈ fileAfter calls := by
  refine ⟨?_, complete_of_cached calls request source⟩
  rintro ⟨bars', returned', complete⟩ bar member after before
  obtain ⟨bars, returned, holds⟩ := fetchBars_returns (sound_fileAfter calls) request source
  obtain rfl : bars = bars' := Option.some.inj (returned.symm.trans returned')
  exact (holds bar member after (before.trans (min_le_left _ _))).mp (complete bar member after before)

def threeDays : Source ⟨"510300.SH", true⟩ where
  bars := [barOf 738886 10, barOf 738887 11, barOf 738888 12]
  distinct := by decide
  timed := by decide

/-- The third day is cached, and all three are asked for: the first two are missing from the answer. -/
theorem earlier_bars_missing :
    (fetchBars
      (fileAfter [.fetchBars { start := 738888, last := 738888, today := 738896, hour := 0 } (some threeDays)])
      { start := 738886, last := 738888, today := 738896, hour := 0 } (some threeDays)).2 = some [barOf 738888 12] := by
  decide

section InTurn

open Runs (turn run)

variable {ι : Type} [DecidableEq ι] {calls : ι → MergeCall}

/-- The times of the bars are as the cache reads them. -/
def Timely (key : SeriesKey) (bars : List Bar) : Prop := ∀ bar ∈ bars, key.normalise bar.timestamp = bar.timestamp

theorem normalise_normalise (key : SeriesKey) (timestamp : ℤ) :
    key.normalise (key.normalise timestamp) = key.normalise timestamp := by
  unfold SeriesKey.normalise midnight dateOf hourOf dayMicros hourMicros
  split_ifs <;> omega

theorem timely_readBars (key : SeriesKey) (file : List Bar) : Timely key (readBars key file) := by
  intro bar member
  obtain ⟨old, -, rfl⟩ := mem_map.mp ((perm_insertionSort _ _).mem_iff.mp member)
  exact normalise_normalise key old.timestamp

theorem Sound.merged {existing newBars : List Bar} (read : Timely key existing) (timely : Timely key newBars) :
    Sound key (mergeBars existing newBars) where
  timed bar member := (Ledger.mem_of_mem_mergeRows member).elim (read bar) (timely bar)
  ordered := Ledger.ordered_mergeRows _ _ _

/-- The file after a merge whose write follows its read. -/
def merge (key : SeriesKey) (file newBars : List Bar) : List Bar :=
  write file (mergeBars (readBars key file) newBars)

theorem merge_merge {file first : List Bar} (timely : Timely key first) (second : List Bar) :
    merge key (merge key file first) second = merge key file (first ++ second) := by
  by_cases empty : mergeBars (readBars key file) first = []
  · obtain ⟨nothing, rfl⟩ := append_eq_nil_iff.mp (mergeBars_eq_nil.mp empty)
    have unchanged : merge key file [] = file := by rw [merge, write, if_pos empty]
    rw [unchanged, nil_append]
  · have sound : Sound key (mergeBars (readBars key file) first) := .merged (timely_readBars key file) timely
    have all : mergeBars (mergeBars (readBars key file) first) second =
        mergeBars (readBars key file) (first ++ second) :=
      Ledger.mergeRows_mergeRows _ _ _ _
    have some : ¬mergeBars (readBars key file) (first ++ second) = [] := by
      rw [mergeBars_eq_nil, ← append_assoc, append_eq_nil_iff, ← mergeBars_eq_nil]
      exact fun none => empty none.1
    have written : merge key file first = mergeBars (readBars key file) first := by rw [merge, write, if_neg empty]
    rw [written, merge, sound.readBars, all, write, if_neg some, merge, write, if_neg some]

/-- Merges that take their turns one after another leave the file of one merge of all their bars. -/
theorem merges_in_turn (key : SeriesKey) (calls : ι → MergeCall) (file : List Bar) (first : ι) (rest : List ι)
    (once : (first :: rest).Nodup) (reading : ∀ i, (calls i).existingBars = none)
    (timely : ∀ i, Timely key (calls i).newBars) :
    (run (turn (mergeTurn key calls)) (MergeState.start file)
      ((first :: rest).flatMap fun i => [(i, .read), (i, .write)])).shared =
      merge key file ((first :: rest).flatMap fun i => (calls i).newBars) := by
  have serial : ∀ (parties : List ι) (state : MergeState ι), parties.Nodup →
      (∀ i ∈ parties, state.own i = .started) →
      (run (turn (mergeTurn key calls)) state (parties.flatMap fun i => [(i, .read), (i, .write)])).shared =
        parties.foldl (fun file i => merge key file (calls i).newBars) state.shared := by
    intro parties
    induction parties with
    | nil => exact fun _ _ _ => rfl
    | cons i parties ih =>
      intro state once started
      obtain ⟨fresh, once⟩ := nodup_cons.mp once
      have own := started i mem_cons_self
      rw [flatMap_cons, Runs.run_append, ih _ once, foldl_cons]
      · simp [turn, mergeTurn, own, reading, merge]
      · intro j member
        have apart : j ≠ i := fun same => fresh (same ▸ member)
        simp [turn, apart, started j (mem_cons_of_mem i member)]
  have batches : ∀ (parties : List ι) (bars : List Bar), Timely key bars →
      parties.foldl (fun file i => merge key file (calls i).newBars) (merge key file bars) =
        merge key file (bars ++ parties.flatMap fun i => (calls i).newBars) := by
    intro parties
    induction parties with
    | nil => simp
    | cons i parties ih =>
      intro bars before
      have timely' : Timely key (bars ++ (calls i).newBars) := by
        intro bar member
        exact (mem_append.mp member).elim (before bar) (timely i bar)
      rw [foldl_cons, merge_merge before, ih _ timely', append_assoc, flatMap_cons]
  rw [serial _ _ once fun _ _ => rfl, flatMap_cons]
  exact batches rest _ (timely first)

theorem merges_in_turn_two :
    (run (turn (mergeTurn ⟨"510300.SH", true⟩ twoMerges)) (MergeState.start [])
      ([true, false].flatMap fun i => [(i, .read), (i, .write)])).shared =
      merge ⟨"510300.SH", true⟩ [] ([true, false].flatMap fun i => (twoMerges i).newBars) :=
  merges_in_turn ⟨"510300.SH", true⟩ twoMerges [] true [false] (by decide) (fun _ => rfl)
    (by unfold Timely; decide)

end InTurn

end FinDashboard.ParquetCache
