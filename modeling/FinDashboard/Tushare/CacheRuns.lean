import FinDashboard.Runs.Guarded
import FinDashboard.Tushare.BarCache
import Mathlib.Tactic.NormNum

/-!
# Runs of the bar cache

One range after the other is fetched and merged. The cache then holds exactly the bars the remote
source has in the ranges sent so far, each scaled to the reference of the last range that held it.
-/

namespace FinDashboard.Tushare

open List

/-- The bar of its row, with prices scaled to a reference. -/
def Built (history : History) (kind : SymbolKind) (adjust : Adjust) (reference : ℚ) (bar : Bar) : Prop :=
  ∃ row, history.daily bar.date = some row ∧
    rowBar (endpointOf kind adjust) (history.adjFactor bar.date) reference bar.date row =
      .ok (some bar)

/-- The bars a fetch of the range returns. -/
def FetchedIn (history : History) (kind : SymbolKind) (adjust : Adjust) (range : DateRange)
    (bar : Bar) : Prop :=
  (range.1 ≤ bar.date ∧ bar.date ≤ range.2) ∧
    Built history kind adjust (history.reference kind adjust range) bar

/-- A file written by this provider. -/
structure CacheFile.Sound (file : CacheFile) : Prop where
  nonempty : file.bars ≠ []
  source_eq : file.sidecar.source = some "tushare"
  firstDate_eq : file.sidecar.firstDate = file.bars.head?.map (·.date)
  lastDate_eq : file.sidecar.lastDate = file.bars.getLast?.map (·.date)
  ordered : file.bars.Pairwise fun a b => a.date ≤ b.date
  valid : ∀ range ∈ file.sidecar.coveredRanges, range.1 ≤ range.2

/-- The cache holds the bars of the dates it has sent. -/
structure CacheState.Sound (history : History) (kind : SymbolKind) (adjust : Adjust)
    (st : CacheState) : Prop where
  file : ∀ file, st.file = some file → file.Sound
  covered : ∀ file, st.file = some file → ∀ date,
    Within file.sidecar.coveredRanges date → Within st.sent date
  sent : ∀ bar ∈ st.bars, Within st.sent bar.date
  present : ∀ date, Within st.sent date → history.hasBar kind date = true →
    ∃ bar ∈ st.bars, bar.date = date
  built : ∀ bar ∈ st.bars, ∃ reference, 0 < reference ∧ Built history kind adjust reference bar
  distinct : ∀ a ∈ st.bars, ∀ b ∈ st.bars, a.date = b.date → a = b

section Built

variable {history : History} {kind : SymbolKind} {adjust : Adjust} {reference : ℚ} {bar other : Bar}

theorem Built.source_eq (built : Built history kind adjust reference bar) :
    bar.source = "tushare" := by
  obtain ⟨row, -, made⟩ := built
  exact ((rowBar_ok made).2 bar rfl).source_eq

theorem Built.unique (built : Built history kind adjust reference bar)
    (built' : Built history kind adjust reference other) (same : bar.date = other.date) :
    bar = other := by
  obtain ⟨row, found, made⟩ := built
  obtain ⟨row', found', made'⟩ := built'
  rw [same] at found made
  cases found.symm.trans found'
  have equal := made.symm.trans made'
  simpa using equal

theorem exists_built (serves : history.Serves kind adjust) (positive : 0 < reference) {date : ℤ}
    (has : history.hasBar kind date = true) :
    ∃ bar, Built history kind adjust reference bar ∧ bar.date = date := by
  obtain ⟨row, found, bar, made⟩ := (serves.hasBar_iff positive).mp has
  have same := ((rowBar_ok made).2 bar rfl).date_eq
  subst same
  exact ⟨bar, ⟨row, found, made⟩, rfl⟩

theorem hasBar_of_built (serves : history.Serves kind adjust) (positive : 0 < reference)
    (built : Built history kind adjust reference bar) : history.hasBar kind bar.date = true := by
  obtain ⟨row, found, made⟩ := built
  exact (serves.hasBar_iff positive).mpr ⟨row, found, bar, made⟩

end Built

section Files

variable {bars : List Bar}

theorem sourceOf_eq (nonempty : bars ≠ []) (tushare : ∀ bar ∈ bars, bar.source = "tushare") :
    sourceOf bars = some "tushare" := by
  have names : bars.map (·.source) = replicate bars.length "tushare" := by
    apply eq_replicate_iff.mpr
    refine ⟨length_map _, ?_⟩
    intro name member
    obtain ⟨bar, held, rfl⟩ := mem_map.mp member
    exact tushare bar held
  have positive := mt length_eq_zero_iff.mp nonempty
  simp only [sourceOf, names]
  rw [filter_replicate_of_pos (by decide), replicate_dedup positive]

theorem sound_writeFile {previous : Option CacheMetadata} {coveredRanges : List DateRange}
    (nonempty : bars ≠ []) (tushare : ∀ bar ∈ bars, bar.source = "tushare")
    (ordered : bars.Pairwise fun a b => a.date ≤ b.date) :
    (writeFile previous bars coveredRanges).Sound where
  nonempty := nonempty
  source_eq := sourceOf_eq nonempty tushare
  firstDate_eq := rfl
  lastDate_eq := rfl
  ordered := ordered
  valid := fun _ => valid_coalesceDateRanges

/-- The dates a written file counts as queried. -/
theorem within_writeFile {previous : Option CacheMetadata} {coveredRanges : List DateRange} {date : ℤ}
    (held : Within (writeFile previous bars coveredRanges).sidecar.coveredRanges date) :
    (∃ metadata, previous = some metadata ∧ Within metadata.coveredRanges date) ∨
      Within coveredRanges date := by
  simp only [writeFile, within_coalesceDateRanges, within_append] at held
  rcases held with retained | recorded
  · cases previous with
    | none => cases within_nil retained
    | some metadata =>
      simp only at retained
      split at retained
      · exact .inl ⟨metadata, rfl, retained⟩
      · cases within_nil retained
  · exact .inr recorded

end Files

section Range

variable {history : History} {kind : SymbolKind} {adjust : Adjust} {st : CacheState}
  {range : DateRange}

/-- The bars after a range: the fetched ones, and the cached ones of other dates. -/
structure RangeFetched (history : History) (kind : SymbolKind) (adjust : Adjust)
    (range : DateRange) (st st' : CacheState) : Prop where
  sound : st'.Sound history kind adjust
  sent_eq : st'.sent = st.sent ++ chunks range
  bars : ∀ bar, bar ∈ st'.bars ↔ FetchedIn history kind adjust range bar ∨
    bar ∈ st.bars ∧ ∀ new, FetchedIn history kind adjust range new → new.date ≠ bar.date

theorem rangeFetched (serves : history.Serves kind adjust) (sound : st.Sound history kind adjust)
    {st' : CacheState} (sent_eq : st'.sent = st.sent ++ chunks range)
    (file : ∀ file, st'.file = some file → file.Sound) (covered : ∀ file, st'.file = some file → ∀ date,
      Within file.sidecar.coveredRanges date → Within st'.sent date)
    (bars : ∀ bar, bar ∈ st'.bars ↔ FetchedIn history kind adjust range bar ∨
      bar ∈ st.bars ∧ ∀ new, FetchedIn history kind adjust range new → new.date ≠ bar.date) :
    RangeFetched history kind adjust range st st' := by
  refine ⟨⟨file, covered, ?_, ?_, ?_, ?_⟩, sent_eq, bars⟩
  · intro bar member
    rw [sent_eq, within_append, within_chunks]
    rcases (bars bar).mp member with fetched | ⟨old, -⟩
    · exact .inr fetched.1
    · exact .inl (sound.sent bar old)
  · intro date sent has
    rw [sent_eq, within_append, within_chunks] at sent
    by_cases inside : range.1 ≤ date ∧ date ≤ range.2
    · obtain ⟨bar, built, rfl⟩ := exists_built serves serves.reference_pos has
      exact ⟨bar, (bars bar).mpr (.inl ⟨inside, built⟩), rfl⟩
    · obtain ⟨bar, old, rfl⟩ := sound.present date (sent.resolve_right inside) has
      refine ⟨bar, (bars bar).mpr (.inr ⟨old, ?_⟩), rfl⟩
      intro new fetched same
      exact inside (same ▸ fetched.1)
  · intro bar member
    rcases (bars bar).mp member with fetched | ⟨old, -⟩
    · exact ⟨_, serves.reference_pos, fetched.2⟩
    · exact sound.built bar old
  · intro a memberA b memberB same
    rcases (bars a).mp memberA with fetchedA | ⟨oldA, otherA⟩
    · rcases (bars b).mp memberB with fetchedB | ⟨-, otherB⟩
      · exact fetchedA.2.unique fetchedB.2 same
      · exact absurd same (otherB a fetchedA)
    · rcases (bars b).mp memberB with fetchedB | ⟨oldB, -⟩
      · exact absurd same.symm (otherA b fetchedB)
      · exact sound.distinct a oldA b oldB same

theorem rangeFetched_merge (serves : history.Serves kind adjust)
    (sound : st.Sound history kind adjust) {new : List Bar} (some' : new ≠ [])
    (fetched : ∀ bar, bar ∈ new ↔ FetchedIn history kind adjust range bar) :
    RangeFetched history kind adjust range st
        { file := (merge st.file new st.bars [range]).1, sent := st.sent ++ chunks range } ∧
      CacheState.bars { file := (merge st.file new st.bars [range]).1
                        sent := st.sent ++ chunks range } = (merge st.file new st.bars [range]).2 := by
  have nonempty : mergeBars st.bars new ≠ [] := by
    obtain ⟨bar, member⟩ := exists_mem_of_ne_nil new some'
    obtain ⟨kept, held, -⟩ := date_mergeBars st.bars (.inr member)
    exact ne_nil_of_mem held
  have written : merge st.file new st.bars [range] =
      (some (writeFile (st.file.map (·.metadata)) (mergeBars st.bars new) [range]),
        mergeBars st.bars new) := by
    simp only [merge, if_neg nonempty]
  have tushare : ∀ bar ∈ mergeBars st.bars new, bar.source = "tushare" := by
    intro bar member
    rcases mem_of_mem_mergeBars member with old | new
    · obtain ⟨reference, -, built⟩ := sound.built bar old
      exact built.source_eq
    · exact ((fetched bar).mp new).2.source_eq
  rw [written]
  refine ⟨rangeFetched serves sound rfl ?_ ?_ ?_, rfl⟩
  · intro file same
    cases same
    exact sound_writeFile nonempty tushare dates_mergeBars
  · intro file same date held
    cases same
    rw [within_append, within_chunks]
    rcases within_writeFile held with ⟨metadata, previous, retained⟩ | recorded
    · obtain ⟨file, cached, rfl⟩ := Option.map_eq_some_iff.mp previous
      rw [CacheFile.metadata, within_coalesceDateRanges] at retained
      exact .inl (sound.covered file cached date retained)
    · simp only [within_cons, within_nil, or_false] at recorded
      exact .inr recorded
  · intro bar
    change bar ∈ mergeBars st.bars new ↔ _
    constructor
    · intro member
      by_cases fresh : bar ∈ new
      · exact .inl ((fetched bar).mp fresh)
      · refine .inr ⟨(mem_of_mem_mergeBars member).resolve_right fresh, ?_⟩
        intro other fetchedIn same
        have given := (fetched other).mpr fetchedIn
        exact fresh (last_mergeBars member given same)
    · rintro (fetchedIn | ⟨old, otherDates⟩)
      · apply mem_mergeBars_of_new ((fetched bar).mpr fetchedIn)
        intro b given same
        exact ((fetched b).mp given).2.unique fetchedIn.2 same
      · apply mem_mergeBars_of_only (.inl old)
        rintro b (older | given) same
        · exact sound.distinct b older bar old same
        · exact absurd same (otherDates b ((fetched b).mp given))

/-- A range without bars is recorded as queried. -/
theorem rangeFetched_empty (serves : history.Serves kind adjust)
    (sound : st.Sound history kind adjust) (valid : range.1 ≤ range.2)
    (none' : ∀ bar, ¬ FetchedIn history kind adjust range bar) {file : Option CacheFile}
    (marked : file = if st.bars ≠ [] then markCovered st.file range "tushare" else st.file) :
    RangeFetched history kind adjust range st { file := file, sent := st.sent ++ chunks range } ∧
      CacheState.bars { file := file, sent := st.sent ++ chunks range } = st.bars := by
  have unchanged : ∀ bar, bar ∈ st.bars ↔ FetchedIn history kind adjust range bar ∨
      bar ∈ st.bars ∧ ∀ new, FetchedIn history kind adjust range new → new.date ≠ bar.date := by
    intro bar
    constructor
    · intro old
      exact .inr ⟨old, fun new fetched => absurd fetched (none' new)⟩
    · rintro (fetched | ⟨old, -⟩)
      · exact absurd fetched (none' bar)
      · exact old
  cases cached : st.file with
  | none =>
    have nothing : st.bars = [] := by simp [CacheState.bars, cached]
    rw [nothing, if_neg (not_not.mpr rfl), cached] at marked
    subst marked
    refine ⟨rangeFetched serves sound rfl nofun nofun ?_, nothing.symm⟩
    intro bar
    rw [← unchanged, nothing]
    rfl
  | some old =>
    have soundOld := sound.file old cached
    have bars : st.bars = old.bars := by simp [CacheState.bars, cached]
    have tushare : old.metadata.source = some "tushare" := soundOld.source_eq
    rw [bars, if_pos soundOld.nonempty, cached, markCovered, if_neg (not_lt.mpr valid)] at marked
    simp only [tushare, if_true] at marked
    subst marked
    refine ⟨rangeFetched serves sound rfl ?_ ?_ ?_, bars.symm⟩
    · intro file same
      cases same
      exact { soundOld with source_eq := rfl, valid := fun _ => valid_coalesceDateRanges }
    · intro file same date held
      cases same
      simp only [within_coalesceDateRanges, within_append, CacheFile.metadata, within_cons,
        within_nil, or_false] at held
      rw [within_append, within_chunks]
      exact held.imp_left (sound.covered old cached date)
    · intro bar
      rw [← unchanged, bars]
      rfl

theorem persistRanges_cons (serves : history.Serves kind adjust)
    (sound : st.Sound history kind adjust) (valid : range.1 ≤ range.2) (rest : List DateRange) :
    ∃ st', RangeFetched history kind adjust range st st' ∧
      persistRanges history kind adjust st st.bars (range :: rest) =
        persistRanges history kind adjust st' st'.bars rest := by
  obtain ⟨new, fetched, holds⟩ := serves.fetchRange valid
  have sent : requests kind range = chunks range := by
    simp [requests, serves.served, not_lt.mpr valid]
  by_cases nothing : new = []
  · have none' : ∀ bar, ¬ FetchedIn history kind adjust range bar := by
      intro bar fetchedIn
      have member := (holds bar).mpr fetchedIn
      rw [nothing] at member
      cases member
    have after := rangeFetched_empty serves sound valid none' rfl
    refine ⟨_, after.1, ?_⟩
    rw [after.2]
    simp only [persistRanges, fetched, nothing, sent, ne_eq, not_true_eq_false, if_false]
    split
    · rfl
    · rfl
  · have after := rangeFetched_merge serves sound nothing holds
    refine ⟨_, after.1, ?_⟩
    rw [after.2]
    simp only [persistRanges, fetched, nothing, sent, ne_eq, not_false_eq_true, if_true]

end Range

section Calls

variable {history : History} {kind : SymbolKind} {adjust : Adjust} {st : CacheState}
  {ranges : List DateRange}

/-- The cache after a list of ranges. -/
structure RangesFetched (history : History) (kind : SymbolKind) (adjust : Adjust)
    (ranges : List DateRange) (st st' : CacheState) : Prop where
  sound : st'.Sound history kind adjust
  sent : ∀ date, Within st'.sent date ↔ Within st.sent date ∨ Within ranges date
  old : ∀ bar ∈ st.bars, ¬ Within ranges bar.date → bar ∈ st'.bars
  origin : ∀ bar ∈ st'.bars, bar ∈ st.bars ∨ ∃ range ∈ ranges, FetchedIn history kind adjust range bar
  new : (ranges.Pairwise fun a b => a.2 < b.1) → (∀ range ∈ ranges, range.1 ≤ range.2) →
    ∀ range ∈ ranges, ∀ bar, FetchedIn history kind adjust range bar → bar ∈ st'.bars

theorem rangesFetched_nil (sound : st.Sound history kind adjust) :
    RangesFetched history kind adjust [] st st where
  sound := sound
  sent := fun _ => by simp
  old := fun _ member _ => member
  origin := fun _ member => .inl member
  new := nofun

theorem rangesFetched_cons {range : DateRange} {next last : CacheState}
    (first : RangeFetched history kind adjust range st next)
    (later : RangesFetched history kind adjust ranges next last) :
    RangesFetched history kind adjust (range :: ranges) st last where
  sound := later.sound
  sent := by
    intro date
    rw [later.sent, first.sent_eq, within_append, within_chunks, within_cons, or_assoc]
  old := by
    intro bar member outside
    rw [within_cons, not_or] at outside
    apply later.old bar _ outside.2
    refine (first.bars bar).mpr (.inr ⟨member, ?_⟩)
    intro new fetched same
    exact outside.1 (same ▸ fetched.1)
  origin := by
    intro bar member
    rcases later.origin bar member with earlier | ⟨other, given, fetched⟩
    · rcases (first.bars bar).mp earlier with fetched | ⟨old, -⟩
      · exact .inr ⟨range, mem_cons_self, fetched⟩
      · exact .inl old
    · exact .inr ⟨other, mem_cons_of_mem _ given, fetched⟩
  new := by
    intro apart valid other given bar fetched
    obtain ⟨before, apartLater⟩ := pairwise_cons.mp apart
    have validLater : ∀ r ∈ ranges, r.1 ≤ r.2 := fun r member =>
      valid r (mem_cons_of_mem _ member)
    rcases mem_cons.mp given with rfl | given
    · apply later.old bar ((first.bars bar).mpr (.inl fetched))
      rintro ⟨r, member, inside⟩
      have := before r member
      have := fetched.1
      omega
    · exact later.new apartLater validLater other given bar fetched

theorem persistRanges_fetched (serves : history.Serves kind adjust)
    (sound : st.Sound history kind adjust) (valid : ∀ range ∈ ranges, range.1 ≤ range.2) :
    ∃ st', persistRanges history kind adjust st st.bars ranges = (st', .ok st'.bars) ∧
      RangesFetched history kind adjust ranges st st' := by
  induction ranges generalizing st with
  | nil => exact ⟨st, rfl, rangesFetched_nil sound⟩
  | cons range rest ih =>
    obtain ⟨next, first, turn⟩ :=
      persistRanges_cons serves sound (valid range mem_cons_self) rest
    obtain ⟨last, done, later⟩ := ih first.sound fun r member =>
      valid r (mem_cons_of_mem _ member)
    exact ⟨last, turn.trans done, rangesFetched_cons first later⟩

def CacheState.recorded (st : CacheState) : List DateRange :=
  match st.file with
  | some file => file.metadata.coveredRanges
  | none => []

def CacheState.span (st : CacheState) : List DateRange :=
  match st.file with
  | some file => file.metadata.span
  | none => []

theorem covers_sound {metadata : CacheMetadata} {start last date : ℤ}
    (covers : metadata.covers start last = true) (from' : start ≤ date) (upTo : date ≤ last) :
    Within (metadata.coveredRanges ++ metadata.span) date := by
  simp only [CacheMetadata.covers, Bool.or_eq_true, decide_eq_true_eq, any_eq_true,
    Bool.and_eq_true] at covers
  rcases covers with past | ⟨range, member, before, after⟩
  · omega
  · exact within_coalesceDateRanges.mp ⟨range, member, before.trans from', upTo.trans after⟩

theorem span_eq {file : CacheFile} (sound : file.Sound) : ∃ first final,
    file.metadata.span = [(first, final)] ∧ (∀ bar ∈ file.bars, first ≤ bar.date) ∧
      ∀ bar ∈ file.bars, bar.date ≤ final := by
  obtain ⟨first, firstBar⟩ : ∃ first, file.bars.head? = some first :=
    Option.isSome_iff_exists.mp (by simpa using sound.nonempty)
  obtain ⟨final, lastBar⟩ : ∃ final, file.bars.getLast? = some final :=
    Option.isSome_iff_exists.mp (by simpa using sound.nonempty)
  have firstDate : file.metadata.firstDate = some first.date := by
    simp [CacheFile.metadata, sound.firstDate_eq, firstBar]
  have lastDate : file.metadata.lastDate = some final.date := by
    simp [CacheFile.metadata, sound.lastDate_eq, lastBar]
  refine ⟨first.date, final.date, by simp only [CacheMetadata.span, firstDate, lastDate], ?_, ?_⟩
  · obtain ⟨rest, bars⟩ := head?_eq_some_iff.mp firstBar
    intro bar member
    have ordered := sound.ordered
    rw [bars] at ordered member
    rcases mem_cons.mp member with rfl | later
    · exact le_rfl
    · exact (pairwise_cons.mp ordered).1 bar later
  · obtain ⟨rest, bars⟩ := getLast?_eq_some_iff.mp lastBar
    intro bar member
    have ordered := sound.ordered
    rw [bars] at ordered member
    rcases mem_append.mp member with earlier | last
    · exact (pairwise_append.mp ordered).2.2 bar earlier final mem_cons_self
    · rw [mem_singleton.mp last]

theorem valid_span {file : CacheFile} (sound : file.Sound) :
    ∀ range ∈ file.metadata.span, range.1 ≤ range.2 := by
  obtain ⟨first, final, span, before, after⟩ := span_eq sound
  obtain ⟨bar, member⟩ := exists_mem_of_ne_nil _ sound.nonempty
  intro range given
  rw [span] at given
  rw [mem_singleton.mp given]
  exact le_trans (before bar member) (after bar member)

theorem within_span (sound : st.Sound history kind adjust) {bar : Bar} (member : bar ∈ st.bars) :
    Within st.span bar.date := by
  cases cached : st.file with
  | none => simp [CacheState.bars, cached] at member
  | some file =>
    have soundFile := sound.file file cached
    have inFile : bar ∈ file.bars := by simpa [CacheState.bars, cached] using member
    have span : st.span = file.metadata.span := by simp [CacheState.span, cached]
    obtain ⟨first, final, span', before, after⟩ := span_eq soundFile
    rw [span, span', within_cons]
    exact .inl ⟨before bar inFile, after bar inFile⟩

/-- A call fetches the requested dates that the cache does not count as queried. -/
theorem within_fetchRanges (sound : st.Sound history kind adjust) (request : Request) (date : ℤ) :
    Within (request.fetchRanges st) date ↔ (request.start ≤ date ∧ date ≤ request.effectiveEnd) ∧
        ¬ Within st.recorded date ∧ ¬ Within st.span date := by
  unfold Request.fetchRanges cacheFetchRanges CacheState.recorded CacheState.span
  split
  · simp only [within_nil, false_iff]
    omega
  · cases cached : st.file with
    | none => simp
    | some file =>
      have tushare : file.metadata.source = some "tushare" := (sound.file file cached).source_eq
      simp only [Option.map_some, tushare, ne_eq, not_true_eq_false, if_false]
      split
      · rename_i covers
        simp only [within_nil, false_iff]
        rintro ⟨⟨from', upTo⟩, unrecorded, outside⟩
        have counted := covers_sound covers from' upTo
        rw [within_append] at counted
        exact counted.elim unrecorded outside
      · rw [within_valid, within_missingRanges (starts_sortRanges _), within_sortRanges,
          within_append, not_or, and_assoc]

theorem apart_fetchRanges (sound : st.Sound history kind adjust) (request : Request) :
    ((request.fetchRanges st).Pairwise fun a b => a.2 < b.1) ∧
      ∀ range ∈ request.fetchRanges st, range.1 ≤ range.2 := by
  unfold Request.fetchRanges cacheFetchRanges
  split
  · simp
  · rename_i ordered
    cases cached : st.file with
    | none => simpa using ordered
    | some file =>
      have soundFile := sound.file file cached
      have tushare : file.metadata.source = some "tushare" := soundFile.source_eq
      simp only [Option.map_some, tushare, ne_eq, not_true_eq_false, if_false]
      split
      · simp
      · have valid : ∀ r ∈ sortRanges (file.metadata.coveredRanges ++ file.metadata.span),
            r.1 ≤ r.2 := by
          intro r member
          have given := (perm_insertionSort rangeLe _).mem_iff.mp member
          rcases mem_append.mp given with recorded | span
          · exact valid_coalesceDateRanges recorded
          · exact valid_span soundFile r span
        constructor
        · exact (apart_missingRanges valid).2.filter _
        · intro r member
          simpa using (mem_filter.mp member).2

theorem perform_fetched (serves : history.Serves kind adjust)
    (sound : st.Sound history kind adjust) (call : ProviderCall) :
    RangesFetched history kind adjust (call.request.fetchRanges st) st
      (call.perform history kind adjust st) := by
  obtain ⟨st', done, fetched⟩ :=
    persistRanges_fetched serves sound (apart_fetchRanges sound call.request).2
  have own : (st.bars.any fun bar => bar.source ≠ "tushare") = false := by
    rw [any_eq_false]
    intro bar member
    obtain ⟨reference, -, built⟩ := sound.built bar member
    simp [built.source_eq]
  have persisted : (fetchAndPersistRanges history kind adjust st (call.request.fetchRanges st)
      st.bars).1 = st' := by
    simp only [fetchAndPersistRanges, own, Bool.false_eq_true, if_false, done]
  cases call with
  | fetchBars request | updateCache request =>
    simp only [ProviderCall.request] at persisted fetched
    simp only [ProviderCall.perform, Tushare.fetchBars, Tushare.updateCache, ProviderCall.request]
    split
    · rename_i nothing
      rw [nothing]
      exact rangesFetched_nil sound
    · rw [persisted]
      exact fetched

theorem sound_start (history : History) (kind : SymbolKind) (adjust : Adjust) :
    CacheState.start.Sound history kind adjust where
  file := by
    rintro _ ⟨⟩
  covered := by
    rintro _ ⟨⟩
  sent := forall_mem_nil _
  present := by
    intro date sent
    exact absurd sent within_nil
  built := forall_mem_nil _
  distinct := forall_mem_nil _

end Calls

/-!
## Which requested dates are queried

The cache counts every date between its first and its last bar as queried. After requests of
disjoint ranges that is wrong for the dates between them.
-/

open FinDashboard.Runs (Guarded)

/-- Every requested date was sent to the remote source, and its bar, if there is one, is cached. -/
def Queried (history : History) (kind : SymbolKind) (st : CacheState) (request : Request) : Prop :=
  ∀ date, request.start ≤ date → date ≤ request.effectiveEnd →
    Within st.sent date ∧ (history.hasBar kind date = true → ∃ bar ∈ st.bars, bar.date = date)

/-- The requested dates in the span of the cached bars were sent before. -/
def SpanSent (st : CacheState) (request : Request) : Prop :=
  ∀ date, request.start ≤ date → date ≤ request.effectiveEnd →
    Within st.span date → Within st.sent date

section Calls

variable {history : History} {kind : SymbolKind} {adjust : Adjust} {st : CacheState}

theorem recorded_sent (sound : st.Sound history kind adjust) {date : ℤ}
    (recorded : Within st.recorded date) : Within st.sent date := by
  cases cached : st.file with
  | none => simp [CacheState.recorded, cached] at recorded
  | some file =>
    simp only [CacheState.recorded, cached, CacheFile.metadata, within_coalesceDateRanges]
      at recorded
    exact sound.covered file cached date recorded

theorem queried_iff (serves : history.Serves kind adjust) (sound : st.Sound history kind adjust)
    (call : ProviderCall) : Queried history kind (call.perform history kind adjust st) call.request ↔
      SpanSent st call.request := by
  have fetched := perform_fetched serves sound call
  constructor
  · intro queried date from' upTo inSpan
    have sent := (queried date from' upTo).1
    rw [fetched.sent, within_fetchRanges sound] at sent
    rcases sent with before | ⟨-, -, outside⟩
    · exact before
    · exact absurd inSpan outside
  · intro spanSent date from' upTo
    have sent : Within (call.perform history kind adjust st).sent date := by
      rw [fetched.sent, within_fetchRanges sound]
      by_cases recorded : Within st.recorded date
      · exact .inl (recorded_sent sound recorded)
      · by_cases inSpan : Within st.span date
        · exact .inl (spanSent date from' upTo inSpan)
        · exact .inr ⟨⟨from', upTo⟩, recorded, inSpan⟩
    exact ⟨sent, fetched.sound.present date sent⟩

end Calls

/-- In every sequence of calls, each call leaves its range queried if and only if each meets a
cache whose span it had sent, where the range asks for it. -/
theorem requested_dates_queried {history : History} {kind : SymbolKind} {adjust : Adjust}
    (serves : history.Serves kind adjust) (calls : List ProviderCall) :
    Guarded (ProviderCall.perform history kind adjust)
        (fun st call => Queried history kind (call.perform history kind adjust st) call.request)
        CacheState.start calls ↔ Guarded (ProviderCall.perform history kind adjust)
        (fun st call => SpanSent st call.request) CacheState.start calls :=
  Guarded.iff_of_invariant (sound_start history kind adjust)
    (fun _ call sound => (perform_fetched serves sound call).sound)
    (fun _ call sound => queried_iff serves sound call)

/-- A stock with the same bar on every day. -/
def steadyHistory : History where
  daily := fun _ => some ⟨some 10, some 11, some 9, some 10, some 1000, some 1000⟩
  adjFactor := fun _ => some 1

theorem steadyHistory_serves (adjust : Adjust) : steadyHistory.Serves .stock adjust := by
  apply serves_of_priced
  · decide
  · intro date factor given
    rw [← Option.some.inj given]
    exact one_pos
  · intro date row given
    rw [← Option.some.inj given]
    exact ⟨10, 11, 9, 10, 1000, 1000, rfl, by norm_num, by norm_num, by norm_num, by norm_num⟩
  · intro date row _
    exact ⟨1, rfl⟩

/-- Monday and Tuesday of one week, and of the week after the next. -/
def disjointCalls : List ProviderCall :=
  [.updateCache { start := 1, last := 2, today := 100, hour := 22 },
    .updateCache { start := 15, last := 16, today := 100, hour := 22 }]

/-- A first request leaves its range queried, with or without the second one. -/
theorem requested_dates_queried_first : Guarded (ProviderCall.perform steadyHistory .stock .qfq)
        (fun st call => Queried steadyHistory .stock
          (call.perform steadyHistory .stock .qfq st) call.request) CacheState.start disjointCalls ↔
      Guarded (ProviderCall.perform steadyHistory .stock .qfq)
        (fun st call => SpanSent st call.request) CacheState.start disjointCalls :=
  requested_dates_queried (steadyHistory_serves .qfq) disjointCalls

/-- The Monday between the two ranges is never queried. -/
theorem skipped_week_not_queried :
    ¬ Guarded (ProviderCall.perform steadyHistory .stock .qfq)
        (fun st call => Queried steadyHistory .stock
          (call.perform steadyHistory .stock .qfq st) call.request)
        CacheState.start (disjointCalls ++
          [.fetchBars { start := 8, last := 9, today := 100, hour := 22 }]) := by
  rintro ⟨-, -, queried, -⟩
  have sent := (queried 8 (by decide) (by decide +kernel)).1
  revert sent
  decide +kernel

end FinDashboard.Tushare
