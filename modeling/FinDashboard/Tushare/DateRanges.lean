import Mathlib.Algebra.Order.Ring.Int
import Mathlib.Data.List.Sort

/-!
# ℤ ranges

Closed ranges of dates: the ranges a cache has queried, the ranges it still misses, and the chunks
a remote request is cut into.
-/

namespace FinDashboard.Tushare

open List

/-- A closed range of dates, each by its ordinal. -/
abbrev DateRange := ℤ × ℤ

/-- Some range holds the date. -/
def Within (ranges : List DateRange) (date : ℤ) : Prop :=
  ∃ range ∈ ranges, range.1 ≤ date ∧ date ≤ range.2

instance (ranges : List DateRange) (date : ℤ) : Decidable (Within ranges date) :=
  inferInstanceAs (Decidable (∃ range ∈ ranges, range.1 ≤ date ∧ date ≤ range.2))

/-- The order of pairs. -/
def rangeLe (a b : DateRange) : Prop := a.1 < b.1 ∨ a.1 = b.1 ∧ a.2 ≤ b.2

instance : DecidableRel rangeLe := fun a b =>
  inferInstanceAs (Decidable (a.1 < b.1 ∨ a.1 = b.1 ∧ a.2 ≤ b.2))

def sortRanges (ranges : List DateRange) : List DateRange := ranges.insertionSort rangeLe

/-- The loop of `_coalesce_date_ranges`; the last merged range is at hand. -/
def mergeRanges (last : DateRange) : List DateRange → List DateRange
  | [] => [last]
  | range :: rest =>
    if range.1 ≤ last.2 + 1 then mergeRanges (last.1, max last.2 range.2) rest
    else last :: mergeRanges range rest

/-- Merge the ranges that overlap or touch. -/
def coalesceDateRanges (ranges : List DateRange) : List DateRange :=
  match sortRanges (ranges.filter fun range => range.1 ≤ range.2) with
  | [] => []
  | first :: rest => mergeRanges first rest

/-- The loop of `_cache_fetch_ranges`, from the cursor on. -/
def missingRanges (effectiveEnd : ℤ) (cursor : ℤ) : List DateRange → List DateRange
  | [] => if cursor ≤ effectiveEnd then [(cursor, effectiveEnd)] else []
  | range :: rest =>
    if range.2 < cursor then missingRanges effectiveEnd cursor rest
    else if effectiveEnd < range.1 then
      if cursor ≤ effectiveEnd then [(cursor, effectiveEnd)] else []
    else
      (if cursor < range.1 then [(cursor, min effectiveEnd (range.1 - 1))] else []) ++
        if effectiveEnd < max cursor (range.2 + 1) then []
        else missingRanges effectiveEnd (max cursor (range.2 + 1)) rest

def maxChunkDays : ℤ := 15 * 366

/-- The ranges one fetch requests; the fuel bounds the number of chunks. -/
def chunksFrom (fuel : ℕ) (cursor last : ℤ) : List DateRange :=
  match fuel with
  | 0 => []
  | fuel + 1 =>
    if cursor ≤ last then
      (cursor, min last (cursor + (maxChunkDays - 1))) ::
        chunksFrom fuel (min last (cursor + (maxChunkDays - 1)) + 1) last
    else []

def chunks (range : DateRange) : List DateRange :=
  chunksFrom (range.2 - range.1 + 1).toNat range.1 range.2

variable {ranges rest : List DateRange} {range : DateRange} {date : ℤ}

@[simp] theorem within_nil : ¬ Within [] date := by
  simp [Within]

@[simp] theorem within_cons :
    Within (range :: rest) date ↔ (range.1 ≤ date ∧ date ≤ range.2) ∨ Within rest date := by
  simp [Within]

@[simp] theorem within_append {first second : List DateRange} :
    Within (first ++ second) date ↔ Within first date ∨ Within second date := by
  induction first with
  | nil => simp
  | cons range rest ih => simp [ih, or_assoc]

theorem within_perm {first second : List DateRange} (perm : first.Perm second) :
    Within first date ↔ Within second date := by
  simp only [Within, perm.mem_iff]

theorem within_valid : Within (ranges.filter fun range => range.1 ≤ range.2) date ↔
    Within ranges date := by
  induction ranges with
  | nil => rfl
  | cons range rest ih =>
    rw [filter_cons]
    split
    · rw [within_cons, within_cons, ih]
    · rename_i inverted
      simp only [decide_eq_true_eq] at inverted
      rw [ih, within_cons]
      constructor
      · exact .inr
      · rintro (inside | inside)
        · omega
        · exact inside

theorem starts_sortRanges (ranges : List DateRange) : (sortRanges ranges).Pairwise fun a b => a.1 ≤ b.1 := by
  have total : Std.Total rangeLe := by
    constructor
    intro a b
    simp only [rangeLe]
    omega
  have transitive : IsTrans DateRange rangeLe := by
    constructor
    intro a b c
    simp only [rangeLe]
    omega
  have sorted := pairwise_insertionSort rangeLe ranges
  apply sorted.imp
  intro a b
  simp only [rangeLe]
  omega

@[simp] theorem within_sortRanges : Within (sortRanges ranges) date ↔ Within ranges date :=
  within_perm (perm_insertionSort rangeLe ranges)

theorem within_mergeRanges (valid : range.1 ≤ range.2) (validRest : ∀ r ∈ rest, r.1 ≤ r.2)
    (sorted : (range :: rest).Pairwise fun a b => a.1 ≤ b.1) :
    Within (mergeRanges range rest) date ↔ Within (range :: rest) date := by
  induction rest generalizing range with
  | nil => rfl
  | cons next rest ih =>
    have after := pairwise_cons.mp sorted
    have afterNext := pairwise_cons.mp after.2
    have validNext := validRest next mem_cons_self
    have validLater : ∀ r ∈ rest, r.1 ≤ r.2 := fun r member =>
      validRest r (mem_cons_of_mem _ member)
    have ordered := after.1 next mem_cons_self
    unfold mergeRanges
    split
    · have sorted' : ((range.1, max range.2 next.2) :: rest).Pairwise fun a b => a.1 ≤ b.1 := by
        apply pairwise_cons.mpr
        exact ⟨fun r member => after.1 r (mem_cons_of_mem _ member), afterNext.2⟩
      have widened : range.1 ≤ max range.2 next.2 := le_trans valid (le_max_left _ _)
      rw [ih widened validLater sorted']
      simp only [within_cons, ← or_assoc]
      apply or_congr_left
      omega
    · rw [within_cons, ih validNext validLater after.2]
      exact within_cons.symm

@[simp] theorem within_coalesceDateRanges :
    Within (coalesceDateRanges ranges) date ↔ Within ranges date := by
  have sorted := starts_sortRanges (ranges.filter fun range => range.1 ≤ range.2)
  have valid : ∀ r ∈ sortRanges (ranges.filter fun range => range.1 ≤ range.2), r.1 ≤ r.2 := by
    intro r member
    have kept := (perm_insertionSort rangeLe _).mem_iff.mp member
    simpa using (mem_filter.mp kept).2
  have same : Within (sortRanges (ranges.filter fun range => range.1 ≤ range.2)) date ↔
      Within ranges date := within_sortRanges.trans within_valid
  rw [← same]
  unfold coalesceDateRanges
  cases found : sortRanges (ranges.filter fun range => range.1 ≤ range.2) with
  | nil => rfl
  | cons first rest =>
    rw [found] at sorted valid
    exact within_mergeRanges (valid first mem_cons_self)
      (fun r member => valid r (mem_cons_of_mem _ member)) sorted

theorem valid_mergeRanges (valid : range.1 ≤ range.2) (validRest : ∀ r ∈ rest, r.1 ≤ r.2) :
    ∀ r ∈ mergeRanges range rest, r.1 ≤ r.2 := by
  induction rest generalizing range with
  | nil =>
    intro r member
    rw [mem_singleton.mp member]
    exact valid
  | cons next rest ih =>
    have validLater : ∀ r ∈ rest, r.1 ≤ r.2 := fun r member =>
      validRest r (mem_cons_of_mem _ member)
    unfold mergeRanges
    split
    · exact ih (le_trans valid (le_max_left _ _)) validLater
    · intro r member
      rcases mem_cons.mp member with rfl | later
      · exact valid
      · exact ih (validRest next mem_cons_self) validLater r later

theorem valid_coalesceDateRanges (member : range ∈ coalesceDateRanges ranges) : range.1 ≤ range.2 := by
  have valid : ∀ r ∈ sortRanges (ranges.filter fun range => range.1 ≤ range.2), r.1 ≤ r.2 := by
    intro r member
    have kept := (perm_insertionSort rangeLe _).mem_iff.mp member
    simpa using (mem_filter.mp kept).2
  unfold coalesceDateRanges at member
  split at member
  · cases member
  · rename_i first rest found
    rw [found] at valid
    exact valid_mergeRanges (valid first mem_cons_self)
      (fun r member => valid r (mem_cons_of_mem _ member)) range member

/-- The missing ranges hold the requested dates that no range holds. -/
theorem within_missingRanges {effectiveEnd cursor : ℤ} (sorted : ranges.Pairwise fun a b => a.1 ≤ b.1) :
    Within (missingRanges effectiveEnd cursor ranges) date ↔
      cursor ≤ date ∧ date ≤ effectiveEnd ∧ ¬ Within ranges date := by
  induction ranges generalizing cursor with
  | nil =>
    unfold missingRanges
    split
    · simp
    · rename_i past
      simp only [within_nil, not_false_eq_true, and_true, false_iff]
      omega
  | cons range rest ih =>
    have after := pairwise_cons.mp sorted
    have later : Within rest date → range.1 ≤ date := by
      rintro ⟨r, member, inside⟩
      exact le_trans (after.1 r member) inside.1
    unfold missingRanges
    split
    · rw [ih after.2, within_cons]
      have outside : cursor ≤ date → ¬(range.1 ≤ date ∧ date ≤ range.2) := by omega
      constructor
      · rintro ⟨from', upTo, free⟩
        exact ⟨from', upTo, not_or.mpr ⟨outside from', free⟩⟩
      · rintro ⟨from', upTo, free⟩
        exact ⟨from', upTo, (not_or.mp free).2⟩
    · split
      · have tail : Within (if cursor ≤ effectiveEnd then [(cursor, effectiveEnd)] else []) date ↔
            cursor ≤ date ∧ date ≤ effectiveEnd := by
          split
          · simp
          · simp only [within_nil, false_iff]
            omega
        rw [tail, within_cons]
        constructor
        · intro inside
          refine ⟨inside.1, inside.2, ?_⟩
          rintro (held | held)
          · omega
          · have := later held
            omega
        · intro inside
          exact ⟨inside.1, inside.2.1⟩
      · have gap : Within (if cursor < range.1 then [(cursor, min effectiveEnd (range.1 - 1))] else [])
            date ↔ cursor ≤ date ∧ date ≤ effectiveEnd ∧ date < range.1 := by
          split
          · simp only [within_cons, within_nil, or_false]
            omega
          · simp only [within_nil, false_iff]
            omega
        have tail : Within (if effectiveEnd < max cursor (range.2 + 1) then []
            else missingRanges effectiveEnd (max cursor (range.2 + 1)) rest) date ↔
            max cursor (range.2 + 1) ≤ date ∧ date ≤ effectiveEnd ∧ ¬ Within rest date := by
          split
          · simp only [within_nil, false_iff]
            omega
          · exact ih after.2
        rw [within_append, gap, tail, within_cons]
        by_cases held : Within rest date
        · have := later held
          simp only [held, not_true_eq_false, and_false, or_false, or_true, iff_false]
          omega
        · simp only [held, not_false_eq_true, and_true, or_false]
          omega

theorem apart_missingRanges {effectiveEnd cursor : ℤ} (valid : ∀ r ∈ ranges, r.1 ≤ r.2) :
    (∀ r ∈ missingRanges effectiveEnd cursor ranges, cursor ≤ r.1) ∧
      (missingRanges effectiveEnd cursor ranges).Pairwise fun a b => a.2 < b.1 := by
  have last : ∀ cursor : ℤ, (∀ r ∈ if cursor ≤ effectiveEnd then [(cursor, effectiveEnd)] else [],
      cursor ≤ r.1) ∧
      (if cursor ≤ effectiveEnd then [(cursor, effectiveEnd)] else []).Pairwise
        fun a b : DateRange => a.2 < b.1 := by
    intro cursor
    split <;> simp
  induction ranges generalizing cursor with
  | nil => exact last cursor
  | cons range rest ih =>
    have validRest : ∀ r ∈ rest, r.1 ≤ r.2 := fun r member =>
      valid r (mem_cons_of_mem _ member)
    have validRange := valid range mem_cons_self
    unfold missingRanges
    split
    · exact ih validRest
    · split
      · exact last cursor
      · have tail : (∀ r ∈ if effectiveEnd < max cursor (range.2 + 1) then []
              else missingRanges effectiveEnd (max cursor (range.2 + 1)) rest,
            max cursor (range.2 + 1) ≤ r.1) ∧
            (if effectiveEnd < max cursor (range.2 + 1) then []
              else missingRanges effectiveEnd (max cursor (range.2 + 1)) rest).Pairwise
                fun a b => a.2 < b.1 := by
          split
          · simp
          · exact ih validRest
        constructor
        · intro r member
          rcases mem_append.mp member with gap | later
          · split at gap
            · rw [mem_singleton.mp gap]
            · cases gap
          · exact le_trans (le_max_left _ _) (tail.1 r later)
        · apply pairwise_append.mpr
          refine ⟨?_, tail.2, ?_⟩
          · split <;> simp
          · intro gap member r later
            have after := tail.1 r later
            split at member
            · rw [mem_singleton.mp member]
              simp only
              omega
            · cases member

theorem within_chunksFrom {fuel : ℕ} {cursor last : ℤ} (enough : last - cursor + 1 ≤ fuel) :
    Within (chunksFrom fuel cursor last) date ↔ cursor ≤ date ∧ date ≤ last := by
  induction fuel generalizing cursor with
  | zero =>
    simp only [chunksFrom, within_nil, false_iff]
    omega
  | succ fuel ih =>
    unfold chunksFrom
    split
    · have long : (1 : ℤ) ≤ maxChunkDays := by decide
      rw [within_cons, ih (by push_cast at enough; omega)]
      simp only
      omega
    · simp only [within_nil, false_iff]
      omega

@[simp] theorem within_chunks : Within (chunks range) date ↔ range.1 ≤ date ∧ date ≤ range.2 :=
  within_chunksFrom (by omega)

end FinDashboard.Tushare
