import FinDashboard.Tushare.BarCache
import Mathlib.Data.List.Pairwise

/-!
# Range arithmetic on dates

The sweeps over date ranges ask for the day after the end of a range, and there is none after the last
date. Where they do not ask for it they compute the union of the ranges, and the difference of a request
and the ranges.
-/

namespace FinDashboard.Tushare

open List

namespace Bounded

/-- `day + timedelta(days=1)`. -/
def nextDay (day : ℤ) : Option ℤ := if day < maxOrdinal then some (day + 1) else none

/-- The loop of `_coalesce_date_ranges`. -/
def mergeRanges (last : DateRange) : List DateRange → Option (List DateRange)
  | [] => some [last]
  | range :: rest =>
    (nextDay last.2).bind fun next =>
      if range.1 ≤ next then mergeRanges (last.1, max last.2 range.2) rest
      else (mergeRanges range rest).map fun merged => last :: merged

def coalesceDateRanges (ranges : List DateRange) : Option (List DateRange) :=
  match sortRanges (ranges.filter fun range => range.1 ≤ range.2) with
  | [] => some []
  | first :: rest => mergeRanges first rest

def covers (metadata : CacheMetadata) (start last : ℤ) : Option Bool :=
  if last < start then some true
  else (coalesceDateRanges (metadata.coveredRanges ++ metadata.span)).map fun merged =>
    merged.any fun range => range.1 ≤ start && last ≤ range.2

/-- The loop of `_cache_fetch_ranges`, from the cursor on. -/
def missingRanges (effectiveEnd cursor : ℤ) : List DateRange → Option (List DateRange)
  | [] => some (if cursor ≤ effectiveEnd then [(cursor, effectiveEnd)] else [])
  | range :: rest =>
    if range.2 < cursor then missingRanges effectiveEnd cursor rest
    else if effectiveEnd < range.1 then
      some (if cursor ≤ effectiveEnd then [(cursor, effectiveEnd)] else [])
    else
      let gap := if cursor < range.1 then [(cursor, min effectiveEnd (range.1 - 1))] else []
      (nextDay range.2).bind fun next =>
        if effectiveEnd < max cursor next then some gap
        else (missingRanges effectiveEnd (max cursor next) rest).map fun later => gap ++ later

def cacheFetchRanges (metadata : Option CacheMetadata) (start effectiveEnd : ℤ) :
    Option (List DateRange) :=
  if effectiveEnd < start then some []
  else match metadata with
    | none => some [(start, effectiveEnd)]
    | some metadata =>
      if metadata.source ≠ some "tushare" then
        if isForeignCache metadata then
          (covers metadata start effectiveEnd).map fun covered =>
            if covered then [] else [(start, effectiveEnd)]
        else some [(start, effectiveEnd)]
      else (covers metadata start effectiveEnd).bind fun covered =>
        if covered then some []
        else (missingRanges effectiveEnd start
          (sortRanges (metadata.coveredRanges ++ metadata.span))).map fun missing =>
            missing.filter fun range => range.1 ≤ range.2

end Bounded

/-- A range other than the last one ends on the last date. -/
def EndsEarly (sorted : List DateRange) : Prop := ∃ range ∈ sorted.dropLast, maxOrdinal ≤ range.2

/-- The ranges before a range that ends on the last date end before the request does. -/
def ReachesLastDate (start effectiveEnd : ℤ) (sorted : List DateRange) : Prop :=
  ∃ before range after, sorted = before ++ range :: after ∧
    start ≤ range.2 ∧ maxOrdinal ≤ range.2 ∧ range.1 ≤ effectiveEnd ∧
    ∀ earlier ∈ before, earlier.2 < effectiveEnd

/-- The ranges before a range that ends two days or more before it starts end before it does. -/
def ReachesInverted (start effectiveEnd : ℤ) (sorted : List DateRange) : Prop :=
  ∃ before range after, sorted = before ++ range :: after ∧
    start ≤ range.2 ∧ range.2 + 1 < range.1 ∧ range.1 ≤ effectiveEnd ∧
    ∀ earlier ∈ before, earlier.2 < range.2

variable {range other last : DateRange} {ranges rest : List DateRange} {date start effectiveEnd cursor : ℤ}

theorem endsEarly_cons_cons : EndsEarly (range :: other :: rest) ↔
    maxOrdinal ≤ range.2 ∨ EndsEarly (other :: rest) := by
  simp [EndsEarly]

theorem endsEarly_congr (same : maxOrdinal ≤ range.2 ↔ maxOrdinal ≤ other.2) :
    EndsEarly (range :: rest) ↔ EndsEarly (other :: rest) := by
  cases rest with
  | nil => simp [EndsEarly]
  | cons next rest => rw [endsEarly_cons_cons, endsEarly_cons_cons, same]

theorem Bounded.mergeRanges_eq (last : DateRange) (rest : List DateRange) :
    (EndsEarly (last :: rest) → Bounded.mergeRanges last rest = none) ∧
      (¬EndsEarly (last :: rest) → Bounded.mergeRanges last rest = some (Tushare.mergeRanges last rest)) := by
  induction rest generalizing last with
  | nil => simp [EndsEarly, Bounded.mergeRanges, Tushare.mergeRanges]
  | cons range rest ih =>
    rw [endsEarly_cons_cons]
    by_cases final : maxOrdinal ≤ last.2
    · simp [Bounded.mergeRanges, Bounded.nextDay, final, not_lt.mpr final]
    · have early := not_le.mp final
      have widened : maxOrdinal ≤ (last.1, max last.2 range.2).2 ↔ maxOrdinal ≤ range.2 := by
        simp only
        omega
      simp only [final, false_or, Bounded.mergeRanges, Tushare.mergeRanges, Bounded.nextDay, early, if_true,
        Option.bind_some]
      split
      · rw [← endsEarly_congr widened]
        exact ih _
      · obtain ⟨fails, merges⟩ := ih range
        exact ⟨fun ends => by rw [fails ends, Option.map_none], fun ends => by rw [merges ends, Option.map_some]⟩

theorem Bounded.coalesceDateRanges_eq (ranges : List DateRange) :
    (EndsEarly (sortRanges (ranges.filter fun range => range.1 ≤ range.2)) →
      Bounded.coalesceDateRanges ranges = none) ∧
    (¬EndsEarly (sortRanges (ranges.filter fun range => range.1 ≤ range.2)) →
      Bounded.coalesceDateRanges ranges = some (Tushare.coalesceDateRanges ranges)) := by
  unfold Bounded.coalesceDateRanges Tushare.coalesceDateRanges
  cases sortRanges (ranges.filter fun range => range.1 ≤ range.2) with
  | nil => simp [EndsEarly]
  | cons first rest => exact Bounded.mergeRanges_eq first rest

theorem apart_mergeRanges (sorted : (range :: rest).Pairwise fun a b => a.1 ≤ b.1) :
    (∀ r ∈ mergeRanges range rest, range.1 ≤ r.1) ∧
      (mergeRanges range rest).Pairwise fun a b => a.2 + 1 < b.1 := by
  induction rest generalizing range with
  | nil => simp [mergeRanges]
  | cons next rest ih =>
    have after := pairwise_cons.mp sorted
    have ordered := after.1 next mem_cons_self
    unfold mergeRanges
    split
    · have sorted' : ((range.1, max range.2 next.2) :: rest).Pairwise fun a b => a.1 ≤ b.1 := by
        apply pairwise_cons.mpr
        exact ⟨fun r member => after.1 r (mem_cons_of_mem _ member), (pairwise_cons.mp after.2).2⟩
      exact ih sorted'
    · rename_i apart
      obtain ⟨starts, later⟩ := ih after.2
      constructor
      · intro r member
        rcases mem_cons.mp member with rfl | member
        · exact le_refl _
        · exact ordered.trans (starts r member)
      · apply pairwise_cons.mpr
        refine ⟨fun r member => ?_, later⟩
        have := starts r member
        omega

theorem apart_coalesceDateRanges (ranges : List DateRange) :
    (coalesceDateRanges ranges).Pairwise fun a b => a.2 + 1 < b.1 := by
  have sorted := starts_sortRanges (ranges.filter fun range => range.1 ≤ range.2)
  unfold coalesceDateRanges
  cases found : sortRanges (ranges.filter fun range => range.1 ≤ range.2) with
  | nil => exact List.Pairwise.nil
  | cons first rest =>
    rw [found] at sorted
    exact (apart_mergeRanges sorted).2

/-- One merged range holds a request whose dates are all held. -/
theorem any_coalesceDateRanges (ordered : start ≤ effectiveEnd) :
    ((coalesceDateRanges ranges).any fun range => range.1 ≤ start && effectiveEnd ≤ range.2) = true ↔
      ∀ date, start ≤ date → date ≤ effectiveEnd → Within ranges date := by
  simp only [any_eq_true, Bool.and_eq_true, decide_eq_true_eq]
  constructor
  · rintro ⟨range, member, before, after⟩ date low high
    exact within_coalesceDateRanges.mp ⟨range, member, before.trans low, high.trans after⟩
  · intro held
    obtain ⟨range, member, before, after⟩ := within_coalesceDateRanges.mpr (held start (le_refl _) ordered)
    refine ⟨range, member, before, ?_⟩
    by_contra short
    -- the day after the range would be held by a range that touches it
    obtain ⟨next, memberNext, low, high⟩ :=
      within_coalesceDateRanges.mpr (held (range.2 + 1) (by omega) (by omega))
    have different : range ≠ next := by
      rintro rfl
      omega
    have symmetric : (coalesceDateRanges ranges).Pairwise fun a b => a.2 + 1 < b.1 ∨ b.2 + 1 < a.1 :=
      (apart_coalesceDateRanges ranges).imp Or.inl
    have flips : Std.Symm fun a b : DateRange => a.2 + 1 < b.1 ∨ b.2 + 1 < a.1 := ⟨fun _ _ => Or.symm⟩
    have apart := symmetric.forall member memberNext different
    have valid := valid_coalesceDateRanges member
    omega

theorem reachesLastDate_nil : ¬ReachesLastDate start effectiveEnd [] := by
  rintro ⟨before, range, after, split, -⟩
  simp at split

theorem reachesInverted_nil : ¬ReachesInverted start effectiveEnd [] := by
  rintro ⟨before, range, after, split, -⟩
  simp at split

theorem reachesLastDate_cons : ReachesLastDate start effectiveEnd (range :: rest) ↔
    (start ≤ range.2 ∧ maxOrdinal ≤ range.2 ∧ range.1 ≤ effectiveEnd) ∨
      (range.2 < effectiveEnd ∧ ReachesLastDate start effectiveEnd rest) := by
  constructor
  · rintro ⟨before, reached, after, split, reaches, final, starts, earlier⟩
    cases before with
    | nil =>
      obtain ⟨rfl, rfl⟩ := cons.inj split
      exact Or.inl ⟨reaches, final, starts⟩
    | cons first before =>
      obtain ⟨rfl, rfl⟩ := cons.inj split
      obtain ⟨ends, earlier⟩ := forall_mem_cons.mp earlier
      exact Or.inr ⟨ends, before, reached, after, rfl, reaches, final, starts, earlier⟩
  · rintro (⟨reaches, final, starts⟩ | ⟨ends, before, reached, after, rfl, reaches, final, starts, earlier⟩)
    · exact ⟨[], range, rest, rfl, reaches, final, starts, by simp⟩
    · exact ⟨range :: before, reached, after, rfl, reaches, final, starts,
        forall_mem_cons.mpr ⟨ends, earlier⟩⟩

theorem reachesInverted_cons : ReachesInverted cursor effectiveEnd (range :: rest) ↔
    (cursor ≤ range.2 ∧ range.2 + 1 < range.1 ∧ range.1 ≤ effectiveEnd) ∨
      ReachesInverted (max cursor (range.2 + 1)) effectiveEnd rest := by
  constructor
  · rintro ⟨before, reached, after, split, reaches, inverted, starts, earlier⟩
    cases before with
    | nil =>
      obtain ⟨rfl, rfl⟩ := cons.inj split
      exact Or.inl ⟨reaches, inverted, starts⟩
    | cons first before =>
      obtain ⟨rfl, rfl⟩ := cons.inj split
      obtain ⟨ends, earlier⟩ := forall_mem_cons.mp earlier
      exact Or.inr ⟨before, reached, after, rfl, by omega, inverted, starts, earlier⟩
  · rintro (⟨reaches, inverted, starts⟩ | ⟨before, reached, after, rfl, reaches, inverted, starts, earlier⟩)
    · exact ⟨[], range, rest, rfl, reaches, inverted, starts, by simp⟩
    · refine ⟨range :: before, reached, after, rfl, by omega, inverted, starts, ?_⟩
      exact forall_mem_cons.mpr ⟨by omega, earlier⟩

theorem reachesLastDate_max {day : ℤ} (early : day < maxOrdinal) :
    ReachesLastDate (max cursor (day + 1)) effectiveEnd ranges ↔ ReachesLastDate cursor effectiveEnd ranges := by
  constructor
  · rintro ⟨before, range, after, split, reaches, final, rest⟩
    exact ⟨before, range, after, split, by omega, final, rest⟩
  · rintro ⟨before, range, after, split, reaches, final, rest⟩
    exact ⟨before, range, after, split, by omega, final, rest⟩

theorem Bounded.missingRanges_eq (ordered : cursor ≤ effectiveEnd)
    (sorted : ranges.Pairwise fun a b => a.1 ≤ b.1) : (ReachesLastDate cursor effectiveEnd ranges →
      Bounded.missingRanges effectiveEnd cursor ranges = none) ∧
    (¬ReachesLastDate cursor effectiveEnd ranges →
      Bounded.missingRanges effectiveEnd cursor ranges = some (Tushare.missingRanges effectiveEnd cursor ranges)) := by
  induction ranges generalizing cursor with
  | nil => simp [reachesLastDate_nil, Bounded.missingRanges, Tushare.missingRanges]
  | cons range rest ih =>
    have after := pairwise_cons.mp sorted
    rw [reachesLastDate_cons]
    unfold Bounded.missingRanges Tushare.missingRanges
    by_cases skipped : range.2 < cursor
    · have unreached : ¬cursor ≤ range.2 := by omega
      have early : range.2 < effectiveEnd := by omega
      simp only [skipped, if_true, unreached, false_and, false_or, early, true_and]
      exact ih ordered after.2
    · by_cases past : effectiveEnd < range.1
      · have starts : ¬range.1 ≤ effectiveEnd := by omega
        have unreached : ¬ReachesLastDate cursor effectiveEnd rest := by
          rintro ⟨before, reached, later, rfl, -, -, starts, -⟩
          have := after.1 reached (by simp)
          omega
        simp [skipped, past, starts, unreached]
      · by_cases final : maxOrdinal ≤ range.2
        · have reached : cursor ≤ range.2 ∧ maxOrdinal ≤ range.2 ∧ range.1 ≤ effectiveEnd := by omega
          simp [skipped, past, Bounded.nextDay, not_lt.mpr final, reached]
        · have early := not_le.mp final
          simp only [skipped, past, if_false, Bounded.nextDay, early, if_true, Option.bind_some, final,
            false_and, and_false, false_or]
          by_cases done : effectiveEnd < max cursor (range.2 + 1)
          · have late : ¬range.2 < effectiveEnd := by omega
            simp [done, late]
          · have before : range.2 < effectiveEnd := by omega
            obtain ⟨fails, sweeps⟩ := ih (not_lt.mp done) after.2
            rw [reachesLastDate_max early] at fails sweeps
            simp only [done, if_false, before, true_and]
            exact ⟨fun reaches => by rw [fails reaches, Option.map_none],
              fun reaches => by rw [sweeps reaches, Option.map_some]⟩

theorem starts_missingRanges : ∀ r ∈ missingRanges effectiveEnd cursor ranges, cursor ≤ r.1 := by
  induction ranges generalizing cursor with
  | nil =>
    unfold missingRanges
    split <;> simp
  | cons range rest ih =>
    unfold missingRanges
    split
    · exact ih
    · split
      · split <;> simp
      · intro r member
        rcases mem_append.mp member with gap | later
        · split at gap
          · rw [mem_singleton.mp gap]
          · cases gap
        · split at later
          · cases later
          · exact (le_max_left _ _).trans (ih r later)

theorem valid_missingRanges (ordered : cursor ≤ effectiveEnd) :
    ∀ r ∈ missingRanges effectiveEnd cursor ranges, r.1 ≤ r.2 := by
  induction ranges generalizing cursor with
  | nil => simp [missingRanges, ordered]
  | cons range rest ih =>
    unfold missingRanges
    split
    · exact ih ordered
    · split
      · simp [ordered]
      · intro r member
        rcases mem_append.mp member with gap | later
        · split at gap
          · rw [mem_singleton.mp gap]
            simp only
            omega
          · cases gap
        · split at later
          · cases later
          · exact ih (by omega) r later

theorem first_missingRanges (ordered : cursor ≤ effectiveEnd) (later : ∀ r ∈ ranges, cursor < r.1) :
    ∃ r ∈ missingRanges effectiveEnd cursor ranges, r.1 = cursor := by
  induction ranges with
  | nil => exact ⟨(cursor, effectiveEnd), by simp [missingRanges, ordered], rfl⟩
  | cons range rest ih =>
    have starts := later range mem_cons_self
    unfold missingRanges
    split
    · exact ih fun r member => later r (mem_cons_of_mem _ member)
    · split
      · exact ⟨(cursor, effectiveEnd), by simp, rfl⟩
      · exact ⟨(cursor, min effectiveEnd (range.1 - 1)), by simp, rfl⟩

theorem disjoint_missingRanges (ordered : cursor ≤ effectiveEnd)
    (sorted : ranges.Pairwise fun a b => a.1 ≤ b.1) :
    (missingRanges effectiveEnd cursor ranges).Pairwise (fun a b => a.2 < b.1) ↔
      ¬ReachesInverted cursor effectiveEnd ranges := by
  induction ranges generalizing cursor with
  | nil => simp [reachesInverted_nil, missingRanges, ordered]
  | cons range rest ih =>
    have after := pairwise_cons.mp sorted
    rw [reachesInverted_cons]
    unfold missingRanges
    by_cases skipped : range.2 < cursor
    · have unreached : ¬cursor ≤ range.2 := by omega
      have unmoved : max cursor (range.2 + 1) = cursor := by omega
      simp only [skipped, if_true, unreached, false_and, false_or, unmoved]
      exact ih ordered after.2
    · have moved : max cursor (range.2 + 1) = range.2 + 1 := by omega
      by_cases past : effectiveEnd < range.1
      · have starts : ¬range.1 ≤ effectiveEnd := by omega
        have unreached : ¬ReachesInverted (max cursor (range.2 + 1)) effectiveEnd rest := by
          rintro ⟨before, reached, later, rfl, -, -, starts, -⟩
          have := after.1 reached (by simp)
          omega
        simp [skipped, past, starts, unreached, ordered]
      · by_cases inverted : range.2 + 1 < range.1
        · -- the gap before the range overlaps the missing range that starts after its end
          have reached : cursor ≤ range.2 ∧ range.2 + 1 < range.1 ∧ range.1 ≤ effectiveEnd := by omega
          have first : ∃ r ∈ missingRanges effectiveEnd (range.2 + 1) rest, r.1 = range.2 + 1 :=
            first_missingRanges (by omega) fun r member => inverted.trans_le (after.1 r member)
          obtain ⟨next, member, starts⟩ := first
          have before : cursor < range.1 := by omega
          have going : ¬effectiveEnd < range.2 + 1 := by omega
          simp only [skipped, past, if_false, before, if_true, moved, going, reached, and_self, true_or, not_true_eq_false,
            iff_false, singleton_append, pairwise_cons, not_and]
          intro apart
          have := apart next member
          omega
        · simp only [skipped, past, if_false, moved, inverted, false_and, and_false, false_or]
          by_cases done : effectiveEnd < range.2 + 1
          · have unreached : ¬ReachesInverted (range.2 + 1) effectiveEnd rest := by
              rintro ⟨before, reached, later, -, reaches, ends, starts, -⟩
              omega
            simp only [done, if_true, unreached, not_false_eq_true, iff_true, append_nil]
            split <;> simp
          · rw [if_neg done, ← ih (by omega) after.2, pairwise_append]
            have lone : (if cursor < range.1 then [(cursor, min effectiveEnd (range.1 - 1))] else []).Pairwise
                fun a b => a.2 < b.1 := by
              split <;> simp
            have apart : ∀ a ∈ if cursor < range.1 then [(cursor, min effectiveEnd (range.1 - 1))] else [],
                ∀ b ∈ missingRanges effectiveEnd (range.2 + 1) rest, a.2 < b.1 := by
              intro gap member next later
              have starts := starts_missingRanges next later
              split at member
              · rw [mem_singleton.mp member]
                simp only
                omega
              · cases member
            exact ⟨fun all => all.2.1, fun tail => ⟨lone, tail, apart⟩⟩

def CacheMetadata.held (metadata : CacheMetadata) : List DateRange := metadata.coveredRanges ++ metadata.span

/-- A request for dates, in order. -/
structure DateRequest where
  start : ℤ
  effectiveEnd : ℤ
  ordered : start ≤ effectiveEnd

/-- The valid ranges in the order of pairs; none but the last ends on the last date. -/
def Mergeable (ranges : List DateRange) : Prop :=
  ¬EndsEarly (sortRanges (ranges.filter fun range => range.1 ≤ range.2))

/-- The request is held, or the sweep reaches neither the last date nor an inverted range. -/
def Sweepable (held : List DateRange) (request : DateRequest) : Prop :=
  (∀ date, request.start ≤ date → date ≤ request.effectiveEnd → Within held date) ∨
    (¬ReachesLastDate request.start request.effectiveEnd (sortRanges held) ∧
      ¬ReachesInverted request.start request.effectiveEnd (sortRanges held))

/-- The merged ranges are apart, and hold the dates of the ranges. -/
def CoalescesExactly (ranges : List DateRange) : Prop :=
  ∃ merged, Bounded.coalesceDateRanges ranges = some merged ∧
    (∀ range ∈ merged, range.1 ≤ range.2) ∧ (merged.Pairwise fun a b => a.2 + 1 < b.1) ∧
    ∀ date, Within merged date ↔ Within ranges date

/-- The ranges to fetch are apart, and hold the dates of the request that are not covered. -/
def FetchesExactly (metadata : CacheMetadata) (request : DateRequest) : Prop :=
  ∃ fetched covered, Bounded.cacheFetchRanges (some metadata) request.start request.effectiveEnd = some fetched ∧
    Bounded.covers metadata request.start request.effectiveEnd = some covered ∧
    (∀ range ∈ fetched, range.1 ≤ range.2) ∧ (fetched.Pairwise fun a b => a.2 < b.1) ∧
    (∀ date, Within fetched date ↔
      request.start ≤ date ∧ date ≤ request.effectiveEnd ∧ ¬Within metadata.held date) ∧
    (fetched = [] ↔ covered = true)

theorem coalescesExactly_iff (ranges : List DateRange) : CoalescesExactly ranges ↔ Mergeable ranges := by
  obtain ⟨fails, merges⟩ := Bounded.coalesceDateRanges_eq ranges
  constructor
  · rintro ⟨merged, returned, -⟩ ends
    rw [fails ends] at returned
    cases returned
  · intro mergeable
    exact ⟨_, merges mergeable, fun _ => valid_coalesceDateRanges, apart_coalesceDateRanges ranges,
      fun _ => within_coalesceDateRanges⟩

theorem Bounded.covers_eq (metadata : CacheMetadata) (request : DateRequest) (mergeable : Mergeable metadata.held) :
    ∃ covered, Bounded.covers metadata request.start request.effectiveEnd = some covered ∧
      (covered = true ↔ ∀ date, request.start ≤ date → date ≤ request.effectiveEnd →
        Within metadata.held date) := by
  have merged := (Bounded.coalesceDateRanges_eq metadata.held).2 mergeable
  rw [CacheMetadata.held] at merged
  refine ⟨_, ?_, any_coalesceDateRanges request.ordered⟩
  rw [Bounded.covers, if_neg (not_lt.mpr request.ordered), merged, Option.map_some]
  rfl

variable {metadata : CacheMetadata} {request : DateRequest}

theorem Bounded.mergeable_of_covers {covered : Bool}
    (returned : Bounded.covers metadata request.start request.effectiveEnd = some covered) :
    Mergeable metadata.held := by
  intro ends
  have failed := (Bounded.coalesceDateRanges_eq metadata.held).1 ends
  rw [CacheMetadata.held] at failed
  rw [Bounded.covers, if_neg (not_lt.mpr request.ordered), failed] at returned
  cases returned

theorem Bounded.cacheFetchRanges_covered
    (queried : metadata.source = some "tushare")
    (returned : Bounded.covers metadata request.start request.effectiveEnd = some true) :
    Bounded.cacheFetchRanges (some metadata) request.start request.effectiveEnd = some [] := by
  unfold Bounded.cacheFetchRanges
  simp [not_lt.mpr request.ordered, queried, returned]

theorem Bounded.cacheFetchRanges_swept
    (queried : metadata.source = some "tushare")
    (returned : Bounded.covers metadata request.start request.effectiveEnd = some false) :
    (ReachesLastDate request.start request.effectiveEnd (sortRanges metadata.held) →
      Bounded.cacheFetchRanges (some metadata) request.start request.effectiveEnd = none) ∧
    (¬ReachesLastDate request.start request.effectiveEnd (sortRanges metadata.held) →
      Bounded.cacheFetchRanges (some metadata) request.start request.effectiveEnd =
        some (Tushare.missingRanges request.effectiveEnd request.start (sortRanges metadata.held))
    ) := by
  have swept := Bounded.missingRanges_eq request.ordered (starts_sortRanges metadata.held)
  have valid : (Tushare.missingRanges request.effectiveEnd request.start (sortRanges metadata.held)).filter
      (fun range => range.1 ≤ range.2) =
      Tushare.missingRanges request.effectiveEnd request.start (sortRanges metadata.held) := by
    apply filter_eq_self.mpr
    intro range member
    exact decide_eq_true (valid_missingRanges request.ordered range member)
  have held : metadata.coveredRanges ++ metadata.span = metadata.held := rfl
  unfold Bounded.cacheFetchRanges
  simp only [not_lt.mpr request.ordered, queried, returned, held, if_false, ne_eq, not_true_eq_false,
    Option.bind_some, Bool.false_eq_true]
  constructor
  · intro reaches
    rw [swept.1 reaches, Option.map_none]
  · intro reaches
    rw [swept.2 reaches, Option.map_some, valid]

theorem fetchesExactly_iff (queried : metadata.source = some "tushare")
    (request : DateRequest) :
    FetchesExactly metadata request ↔ Mergeable metadata.held ∧ Sweepable metadata.held request := by
  have sorted := starts_sortRanges metadata.held
  constructor
  · rintro ⟨fetched, covered, returned, checked, -, apart, -, -⟩
    have mergeable := Bounded.mergeable_of_covers checked
    refine ⟨mergeable, ?_⟩
    obtain ⟨covered', checked', held⟩ := Bounded.covers_eq metadata request mergeable
    obtain rfl : covered = covered' := Option.some.inj (checked.symm.trans checked')
    cases covered with
    | true => exact Or.inl (held.mp rfl)
    | false =>
      obtain ⟨fails, sweeps⟩ := Bounded.cacheFetchRanges_swept queried checked
      by_cases reaches : ReachesLastDate request.start request.effectiveEnd (sortRanges metadata.held)
      · rw [fails reaches] at returned
        cases returned
      · rw [sweeps reaches] at returned
        obtain rfl := Option.some.inj returned
        exact Or.inr ⟨reaches, (disjoint_missingRanges request.ordered sorted).mp apart⟩
  · rintro ⟨mergeable, sweepable⟩
    obtain ⟨covered, checked, held⟩ := Bounded.covers_eq metadata request mergeable
    cases covered with
    | true =>
      refine ⟨[], true, Bounded.cacheFetchRanges_covered queried checked, checked, by simp, List.Pairwise.nil, ?_, by simp⟩
      intro date
      simp only [within_nil, false_iff, not_and, not_not]
      exact held.mp rfl date
    | false =>
      have uncovered : ¬∀ date, request.start ≤ date → date ≤ request.effectiveEnd →
          Within metadata.held date := fun all => absurd (held.mpr all) (by simp)
      rcases sweepable with all | ⟨unreached, upright⟩
      · exact absurd all uncovered
      have swept : ∀ date, Within (Tushare.missingRanges request.effectiveEnd request.start
          (sortRanges metadata.held)) date ↔
          request.start ≤ date ∧ date ≤ request.effectiveEnd ∧ ¬Within metadata.held date := by
        intro date
        rw [within_missingRanges sorted, within_sortRanges]
      refine ⟨_, false, (Bounded.cacheFetchRanges_swept queried checked).2 unreached, checked,
        valid_missingRanges request.ordered, (disjoint_missingRanges request.ordered sorted).mpr upright, swept, ?_⟩
      simp only [Bool.false_eq_true, iff_false]
      intro empty
      apply uncovered
      intro date low high
      by_contra free
      have missing := (swept date).mpr ⟨low, high, free⟩
      rw [empty] at missing
      exact within_nil missing

/-- The ranges are merged exactly where no range but the last ends on the last date, and the difference is
exact where also the sweep reaches no such range and no inverted one. -/
theorem range_arithmetic_exact_iff {metadata : CacheMetadata} (queried : metadata.source = some "tushare")
    (request : DateRequest) (ranges : List DateRange) :
    (CoalescesExactly ranges ↔ Mergeable ranges) ∧
      (FetchesExactly metadata request ↔ Mergeable metadata.held ∧ Sweepable metadata.held request) :=
  ⟨coalescesExactly_iff ranges, fetchesExactly_iff queried request⟩

def secondDay : CacheMetadata where
  firstDate := some 2
  lastDate := some 2
  source := some "tushare"
  coveredRanges := []

theorem range_arithmetic_exact_second_day :
    (CoalescesExactly [(1, 2), (3, 4)] ↔ Mergeable [(1, 2), (3, 4)]) ∧
      (FetchesExactly secondDay ⟨1, 3, by decide⟩ ↔
        Mergeable secondDay.held ∧ Sweepable secondDay.held ⟨1, 3, by decide⟩) :=
  range_arithmetic_exact_iff rfl ⟨1, 3, by decide⟩ [(1, 2), (3, 4)]

/-- There is no day after the last date. -/
theorem last_date_overflows : Bounded.coalesceDateRanges [(1, maxOrdinal), (2, 3)] = none := by
  decide

section Canonical

variable {others later : List DateRange}

/-- Ranges in order that leave a day between them. -/
def Separate (ranges : List DateRange) : Prop :=
  (∀ range ∈ ranges, range.1 ≤ range.2) ∧ ranges.Pairwise fun a b => a.2 + 1 < b.1

theorem Separate.after (separate : Separate (range :: rest)) (within : Within rest date) : range.2 + 1 < date := by
  obtain ⟨other, member, start, -⟩ := within
  have apart := (pairwise_cons.mp separate.2).1 other member
  omega

theorem Separate.tail (separate : Separate (range :: rest)) : Separate rest :=
  ⟨(forall_mem_cons.mp separate.1).2, (pairwise_cons.mp separate.2).2⟩

/-- A day before the end of the first range is within it or before all. -/
theorem Separate.first_le (separate : Separate (range :: rest)) (within : Within (range :: rest) date) :
    range.1 ≤ date := by
  have valid := separate.1 range mem_cons_self
  rcases within_cons.mp within with here | behind
  · exact here.1
  · have after := separate.after behind
    omega

theorem Separate.end_le (separate : Separate (range :: rest))
    (same : ∀ date, Within (range :: rest) date ↔ Within (other :: later) date) (start : range.1 = other.1) :
    other.2 ≤ range.2 := by
  have valid := separate.1 range mem_cons_self
  refine not_lt.mp fun shorter => ?_
  have within : Within (other :: later) (range.2 + 1) := within_cons.mpr (.inl ⟨by omega, by omega⟩)
  rcases within_cons.mp ((same _).mpr within) with here | behind
  · omega
  · exact absurd (separate.after behind) (lt_irrefl _)

/-- Separate ranges are determined by their days. -/
theorem Separate.ext (separate : Separate ranges) (separate' : Separate others)
    (same : ∀ date, Within ranges date ↔ Within others date) : ranges = others := by
  induction ranges generalizing others with
  | nil =>
    cases others with
    | nil => rfl
    | cons other later =>
      have held : Within (other :: later) other.1 :=
        within_cons.mpr (.inl ⟨le_rfl, separate'.1 other mem_cons_self⟩)
      exact absurd ((same _).mpr held) (by simp [Within])
  | cons range rest ih =>
    have held : Within (range :: rest) range.1 := within_cons.mpr (.inl ⟨le_rfl, separate.1 range mem_cons_self⟩)
    cases others with
    | nil => exact absurd ((same _).mp held) (by simp [Within])
    | cons other later =>
      have held' : Within (other :: later) other.1 :=
        within_cons.mpr (.inl ⟨le_rfl, separate'.1 other mem_cons_self⟩)
      have starts : range.1 = other.1 :=
        le_antisymm (separate.first_le ((same _).mpr held')) (separate'.first_le ((same _).mp held))
      have ends : range.2 = other.2 := le_antisymm (separate'.end_le (fun date => (same date).symm) starts.symm)
        (separate.end_le same starts)
      obtain rfl : range = other := Prod.ext starts ends
      rw [ih separate.tail separate'.tail fun date => ?_]
      constructor
      · intro within
        have after := separate.after within
        exact (within_cons.mp ((same date).mp (within_cons.mpr (.inr within)))).resolve_left (by omega)
      · intro within
        have after := separate'.after within
        exact (within_cons.mp ((same date).mpr (within_cons.mpr (.inr within)))).resolve_left (by omega)

/-- The ranges that are recorded depend on the days alone. -/
theorem coalesceDateRanges_canonical {merged merged' : List DateRange}
    (returned : Bounded.coalesceDateRanges ranges = some merged)
    (returned' : Bounded.coalesceDateRanges others = some merged') :
    merged = merged' ↔ ∀ date, Within ranges date ↔ Within others date := by
  have exact' : ∀ {ranges merged}, Bounded.coalesceDateRanges ranges = some merged →
      Separate merged ∧ ∀ date, Within merged date ↔ Within ranges date := by
    intro ranges merged returned
    have mergeable : Mergeable ranges := by
      intro ends
      rw [(Bounded.coalesceDateRanges_eq ranges).1 ends] at returned
      cases returned
    obtain ⟨list, found, valid, apart, same⟩ := (coalescesExactly_iff ranges).mpr mergeable
    obtain rfl : list = merged := Option.some.inj (found.symm.trans returned)
    exact ⟨⟨valid, apart⟩, same⟩
  obtain ⟨separate, same⟩ := exact' returned
  obtain ⟨separate', same'⟩ := exact' returned'
  constructor
  · rintro rfl date
    exact (same date).symm.trans (same' date)
  · intro days
    exact separate.ext separate' fun date => (same date).trans ((days date).trans (same' date).symm)

theorem coalesceDateRanges_canonical_week :
    [((1 : ℤ), (7 : ℤ))] = [(1, 7)] ↔ ∀ date, Within [(4, 7), (1, 3)] date ↔ Within [(1, 5), (2, 7)] date :=
  coalesceDateRanges_canonical (show Bounded.coalesceDateRanges [(4, 7), (1, 3)] = some [(1, 7)] by decide)
    (show Bounded.coalesceDateRanges [(1, 5), (2, 7)] = some [(1, 7)] by decide)

end Canonical

end FinDashboard.Tushare
