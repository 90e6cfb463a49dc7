import FinDashboard.Ledger.KeyedMerge
import FinDashboard.Runs.SortedOn
import FinDashboard.Shared.Calendar
import FinDashboard.Text.Timestamps
import Mathlib.Data.Prod.Lex

/-!
# The days of decisions

A decision is taken on the last trading day of a period that another one follows. The period of the last trading
day may still go on, so that more days change none of the decisions before them.
-/

namespace FinDashboard.Research

open Ledger List Text

inductive DecisionSchedule
  | daily | weekly | monthly | quarterly
  | custom (dates : List Date)

/-- The year and the week of `isocalendar`: the year is that of the Thursday of the week. -/
def isoWeek (day : Date) : ℕ ×ₗ ℕ :=
  let thursday := (day.toordinal - weekday day.toordinal + 3).toNat
  let year := Nat.findGreatest (fun year => daysBeforeYear year < thursday) 9999
  toLex (year, (thursday - daysBeforeYear year - 1) / 7 + 1)

def monthBucket (day : Date) : ℕ ×ₗ ℕ := toLex (day.year, day.month)

def quarterBucket (day : Date) : ℕ ×ₗ ℕ := toLex (day.year, (day.month - 1) / 3 + 1)

/-- The last day of every period, in order. -/
def periodEnds (period : Date → ℕ ×ₗ ℕ) (days : List Date) : List Date :=
  sortedOn Date.toordinal ((byKey period days).map (·.2))

/-- `_derive_decision_dates`; custom dates that are no trading days are refused. -/
def deriveDecisionDates (tradingDays : List Date) (schedule : DecisionSchedule) : Except (List Date) (List Date) :=
  let days := sortedOn Date.toordinal tradingDays.dedup
  match days.getLast? with
  | none => .ok []
  | some lastDay =>
    let cut := filter fun day : Date => day.toordinal < lastDay.toordinal
    match schedule with
    | .daily => .ok (cut days)
    | .weekly => .ok (cut (periodEnds isoWeek days))
    | .monthly => .ok (cut (periodEnds monthBucket days))
    | .quarterly => .ok (cut (periodEnds quarterBucket days))
    | .custom dates =>
      let invalid := dates.filter fun day => day ∉ days
      if invalid = [] then .ok (cut dates) else .error invalid

def DecisionSchedule.period : DecisionSchedule → Option (Date → ℕ ×ₗ ℕ)
  | .daily => some fun day => toLex (day.toordinal.toNat, 0)
  | .weekly => some isoWeek
  | .monthly => some monthBucket
  | .quarterly => some quarterBucket
  | .custom _ => none

abbrev Increasing (days : List Date) : Prop := days.Pairwise fun day later => day.toordinal < later.toordinal

/-- The dates are in order, and are the last trading days of the periods that another one follows. -/
structure PeriodEnds (period : Date → ℕ ×ₗ ℕ) (tradingDays dates : List Date) : Prop where
  increasing : Increasing dates
  mem_iff : ∀ day, day ∈ dates ↔ day ∈ tradingDays ∧
    (∀ other ∈ tradingDays, period other = period day → other.toordinal ≤ day.toordinal) ∧
    ∃ other ∈ tradingDays, period day < period other
  one : ∀ day ∈ tradingDays, (∃ other ∈ tradingDays, period day < period other) →
    ∃! date, date ∈ dates ∧ period date = period day

/-- Later days are in later periods, or in the same one. -/
def Follows (period : Date → ℕ ×ₗ ℕ) : Prop :=
  ∀ day later : Date, day.toordinal ≤ later.toordinal → period day ≤ period later

variable {day later : Date}

theorem year_le (le : day.toordinal ≤ later.toordinal) :
    day.year < later.year ∨ day.year = later.year ∧ day.month ≤ later.month := by
  rcases Nat.lt_trichotomy day.year later.year with earlier | same | after
  · exact Or.inl earlier
  · refine Or.inr ⟨same, not_lt.mp fun before => ?_⟩
    have equal := Date.toordinal_injective (le_antisymm le (Date.toordinal_le_of_month_lt same.symm before))
    exact absurd before (by rw [equal]; exact lt_irrefl _)
  · have equal := Date.toordinal_injective (le_antisymm le (Date.toordinal_le_of_year_lt after))
    exact absurd after (by rw [equal]; exact lt_irrefl _)

theorem follows_isoWeek : Follows isoWeek := by
  intro day later le
  have thursday : (day.toordinal - weekday day.toordinal + 3).toNat ≤
      (later.toordinal - weekday later.toordinal + 3).toNat := by
    unfold weekday
    omega
  unfold isoWeek
  dsimp only
  generalize (day.toordinal - weekday day.toordinal + 3).toNat = first at *
  generalize (later.toordinal - weekday later.toordinal + 3).toNat = second at *
  have years : Nat.findGreatest (fun year => daysBeforeYear year < first) 9999 ≤
      Nat.findGreatest (fun year => daysBeforeYear year < second) 9999 :=
    Nat.findGreatest_mono_left (fun year before => before.trans_le thursday) _
  rcases years.lt_or_eq with earlier | same
  · exact Prod.Lex.toLex_le_toLex.mpr (Or.inl earlier)
  · refine Prod.Lex.toLex_le_toLex.mpr (Or.inr ⟨same, ?_⟩)
    rw [same]
    dsimp only
    omega

theorem follows_period {schedule : DecisionSchedule} {period : Date → ℕ ×ₗ ℕ}
    (recurs : schedule.period = some period) : Follows period := by
  cases schedule with
  | daily =>
    obtain rfl := Option.some.inj recurs
    intro day later le
    exact Prod.Lex.toLex_le_toLex.mpr ((Int.toNat_le_toNat le).lt_or_eq.imp id fun same => ⟨same, le_rfl⟩)
  | weekly => exact Option.some.inj recurs ▸ follows_isoWeek
  | monthly =>
    obtain rfl := Option.some.inj recurs
    exact fun day later le => Prod.Lex.toLex_le_toLex.mpr (year_le le)
  | quarterly =>
    obtain rfl := Option.some.inj recurs
    intro day later le
    refine Prod.Lex.toLex_le_toLex.mpr ((year_le le).imp_right fun same => ⟨same.1, ?_⟩)
    dsimp only
    omega
  | custom dates => cases recurs

variable {period : Date → ℕ ×ₗ ℕ} {tradingDays days dates laterDays : List Date} {schedule : DecisionSchedule}

/-- In a list that goes down the first day with a property is the last one. -/
theorem find?_eq_some_of_pairwise {p : Date → Bool}
    (down : days.Pairwise fun first second => second.toordinal < first.toordinal) :
    days.find? p = some day ↔ day ∈ days ∧ p day ∧ ∀ other ∈ days, p other → other.toordinal ≤ day.toordinal := by
  induction days with
  | nil => simp
  | cons first rest ih =>
    obtain ⟨greatest, down⟩ := pairwise_cons.mp down
    cases holds : p first with
    | false =>
      rw [find?_cons_of_neg (by simp [holds]), ih down]
      simp only [mem_cons, forall_eq_or_imp, holds, Bool.false_eq_true, false_implies, true_and]
      refine and_congr_left fun both => (or_iff_right ?_).symm
      rintro rfl
      rw [holds] at both
      cases both.1
    | true =>
      rw [find?_cons_of_pos holds, Option.some.injEq]
      refine ⟨?_, fun ⟨member, _, last⟩ => ?_⟩
      · rintro rfl
        exact ⟨mem_cons_self, holds,
          forall_mem_cons.mpr ⟨fun _ => le_rfl, fun other member _ => (greatest other member).le⟩⟩
      · rcases mem_cons.mp member with same | behind
        · exact same.symm
        · exact absurd (last first mem_cons_self holds) (not_le.mpr (greatest day behind))

theorem increasing_sortedOn (apart : days.Nodup) : Increasing (sortedOn Date.toordinal days) := by
  have distinct : (sortedOn Date.toordinal days).Nodup := sortedOn_perm.nodup_iff.mpr apart
  refine (pairwise_sortedOn.and distinct).imp fun both => both.1.lt_of_ne fun same => both.2 ?_
  exact Date.toordinal_injective same

theorem mem_periodEnds (up : Increasing days) :
    day ∈ periodEnds period days ↔
      day ∈ days ∧ ∀ other ∈ days, period other = period day → other.toordinal ≤ day.toordinal := by
  have merged : day ∈ periodEnds period days ↔ day ∈ mergeRows period [] days := by simp [periodEnds, mergeRows]
  rw [merged, mem_mergeRows, nil_append, find?_eq_some_of_pairwise (pairwise_reverse.mpr up)]
  simp

theorem increasing_periodEnds : Increasing (periodEnds period days) := by
  refine increasing_sortedOn (Nodup.of_map period ?_)
  have perm : (mergeRows period [] days).Perm ((byKey period days).map (·.2)) := perm_insertionSort _ _
  exact (perm.map period).nodup_iff.mp (nodup_mergeRows period [] days)

theorem lt_last_iff (follows : Follows period) {lastDay : Date} (inside : lastDay ∈ days)
    (last : ∀ other ∈ days, other.toordinal ≤ lastDay.toordinal)
    (ends : ∀ other ∈ days, period other = period day → other.toordinal ≤ day.toordinal) :
    day.toordinal < lastDay.toordinal ↔ ∃ other ∈ days, period day < period other := by
  constructor
  · intro before
    refine ⟨lastDay, inside, (follows day lastDay before.le).lt_of_ne fun same => ?_⟩
    exact absurd (ends lastDay inside same.symm) (not_le.mpr before)
  · rintro ⟨other, member, further⟩
    refine lt_of_lt_of_le (not_le.mp fun back => ?_) (last other member)
    exact absurd (follows other day back) (not_le.mpr further)

theorem PeriodEnds.of_mem (increasing : Increasing dates)
    (mem_iff : ∀ day, day ∈ dates ↔ day ∈ tradingDays ∧
      (∀ other ∈ tradingDays, period other = period day → other.toordinal ≤ day.toordinal) ∧
      ∃ other ∈ tradingDays, period day < period other) : PeriodEnds period tradingDays dates where
  increasing := increasing
  mem_iff := mem_iff
  one day member further := by
    have here : day ∈ tradingDays.filter fun other => period other = period day := by simp [member]
    obtain ⟨date, latest⟩ : ∃ date, latestOn Date.toordinal _ = some date := exists_latestOn here
    obtain ⟨inside, last⟩ := latestOn_spec latest
    obtain ⟨inside, same⟩ : date ∈ tradingDays ∧ period date = period day := by simpa using inside
    have ends : ∀ other ∈ tradingDays, period other = period date → other.toordinal ≤ date.toordinal := by
      intro other given equal
      exact last other (by simp [given, equal, same])
    refine ⟨date, ⟨(mem_iff date).mpr ⟨inside, ends, same ▸ further⟩, same⟩, ?_⟩
    rintro second ⟨chosen, equal⟩
    have second := (mem_iff second).mp chosen
    refine Date.toordinal_injective (le_antisymm (ends _ second.1 (equal.trans same.symm)) ?_)
    exact second.2.1 date inside (same.trans equal.symm)

theorem periodEnds_cut (follows : Follows period)
    (up : Increasing days)
    (same : ∀ day, day ∈ days ↔ day ∈ tradingDays) {lastDay : Date} (last : days.getLast? = some lastDay) :
    PeriodEnds period tradingDays
      ((periodEnds period days).filter fun day => day.toordinal < lastDay.toordinal) := by
  have inside := mem_of_getLast? last
  have greatest : ∀ other ∈ days, other.toordinal ≤ lastDay.toordinal := by
    obtain ⟨front, rfl⟩ := getLast?_eq_some_iff.mp last
    intro other member
    rcases mem_append.mp member with before | only
    · exact ((pairwise_append.mp up).2.2 other before lastDay (mem_singleton.mpr rfl)).le
    · exact (congrArg Date.toordinal (mem_singleton.mp only)).le
  refine PeriodEnds.of_mem (increasing_periodEnds.filter _) fun day => ?_
  simp only [← same]
  rw [mem_filter, mem_periodEnds up, and_assoc]
  refine and_congr_right fun _ => and_congr_right fun ends => ?_
  rw [decide_eq_true_iff]
  exact lt_last_iff follows inside greatest ends

theorem periodEnds_toordinal (up : Increasing days) :
    periodEnds (fun day => toLex (day.toordinal.toNat, 0)) days = days := by
  refine Pairwise.eq_of_mem_iff (r := fun day later : Date => day.toordinal < later.toordinal) ?_ up fun day => ?_
  · exact increasing_periodEnds
  · rw [mem_periodEnds up]
    refine and_iff_left fun other _ same => ?_
    have equal : other.toordinal.toNat = day.toordinal.toNat := congrArg (fun pair => (ofLex pair).1) same
    rw [other.toordinal_eq, day.toordinal_eq] at *
    omega

theorem deriveDecisionDates_periodEnds (tradingDays : List Date) (recurs : schedule.period = some period) :
    ∃ dates, deriveDecisionDates tradingDays schedule = .ok dates ∧ PeriodEnds period tradingDays dates := by
  have follows := follows_period recurs
  have up := increasing_sortedOn tradingDays.nodup_dedup
  have same : ∀ day, day ∈ sortedOn Date.toordinal tradingDays.dedup ↔ day ∈ tradingDays := by simp
  unfold deriveDecisionDates
  dsimp only
  cases last : (sortedOn Date.toordinal tradingDays.dedup).getLast? with
  | none =>
    have empty : ∀ day, day ∉ tradingDays := by
      intro day member
      rw [← same, getLast?_eq_none_iff.mp last] at member
      cases member
    exact ⟨[], rfl, PeriodEnds.of_mem .nil fun day => by simp [empty]⟩
  | some lastDay =>
    have ends := periodEnds_cut follows up same last
    cases schedule with
    | daily =>
      obtain rfl := Option.some.inj recurs
      rw [periodEnds_toordinal up] at ends
      exact ⟨_, rfl, ends⟩
    | weekly | monthly | quarterly =>
      obtain rfl := Option.some.inj recurs
      exact ⟨_, rfl, ends⟩
    | custom dates => cases recurs

theorem PeriodEnds.prefix_of_later (follows : Follows period) {longer : List Date}
    (short : PeriodEnds period tradingDays dates) (long : PeriodEnds period (tradingDays ++ laterDays) longer)
    (after : ∀ later ∈ laterDays, ∀ day ∈ tradingDays, day.toordinal < later.toordinal) : dates <+: longer := by
  have kept : ∀ day ∈ dates, day ∈ longer := by
    intro day member
    obtain ⟨inside, ends, next, there, further⟩ := (short.mem_iff day).mp member
    refine (long.mem_iff day).mpr ⟨mem_append_left _ inside, fun other given same => ?_,
      next, mem_append_left _ there, further⟩
    rcases mem_append.mp given with before | later
    · exact ends other before same
    · have behind := follows next other (after other later next there).le
      exact absurd (further.trans_le behind) (by simp [same])
  have behind : longer.Pairwise fun first second =>
      decide (second ∈ dates) = true → decide (first ∈ dates) = true := by
    refine (Pairwise.and_mem.mp long.increasing).imp fun {first second} ⟨given, _, less⟩ chosen => ?_
    have chosen := (short.mem_iff second).mp (of_decide_eq_true chosen)
    obtain ⟨place, ends, -⟩ := (long.mem_iff first).mp given
    have inside : first ∈ tradingDays := by
      refine (mem_append.mp place).resolve_right fun later => ?_
      exact lt_asymm less (after first later second chosen.1)
    refine decide_eq_true ((short.mem_iff first).mpr
      ⟨inside, fun other member => ends other (mem_append_left _ member), second, chosen.1, ?_⟩)
    refine (follows first second less.le).lt_of_ne fun same => ?_
    exact absurd (ends second (mem_append_left _ chosen.1) same.symm) (not_le.mpr less)
  have part : longer.filter (fun day => decide (day ∈ dates)) = dates := by
    refine Pairwise.eq_of_mem_iff (long.increasing.filter _) short.increasing fun day => ?_
    rw [mem_filter, decide_eq_true_iff]
    exact and_iff_right_of_imp (kept day)
  exact ⟨_, (congrArg (· ++ _) part).symm.trans (filter_append_of_pairwise behind)⟩

/-- A decision is taken at the end of every period that another one follows, and stays when days are added. -/
theorem deriveDecisionDates_prefix (recurs : schedule.period = some period) :
    ∃ dates, deriveDecisionDates tradingDays schedule = .ok dates ∧ PeriodEnds period tradingDays dates ∧
      ∀ laterDays, (∀ later ∈ laterDays, ∀ day ∈ tradingDays, day.toordinal < later.toordinal) →
        ∃ longer, deriveDecisionDates (tradingDays ++ laterDays) schedule = .ok longer ∧ dates <+: longer := by
  obtain ⟨dates, derived, ends⟩ := deriveDecisionDates_periodEnds tradingDays recurs
  refine ⟨dates, derived, ends, fun laterDays after => ?_⟩
  obtain ⟨longer, extended, long⟩ := deriveDecisionDates_periodEnds (tradingDays ++ laterDays) recurs
  exact ⟨longer, extended, ends.prefix_of_later (follows_period recurs) long after⟩

theorem deriveDecisionDates_prefix_monthly :
    ∃ dates, deriveDecisionDates [⟨2024, 2, 1, by decide, by decide, by decide⟩] .monthly = .ok dates ∧
      PeriodEnds monthBucket [⟨2024, 2, 1, by decide, by decide, by decide⟩] dates ∧
      ∀ laterDays, (∀ later ∈ laterDays, ∀ day ∈ [(⟨2024, 2, 1, by decide, by decide, by decide⟩ : Date)],
        day.toordinal < later.toordinal) →
        ∃ longer, deriveDecisionDates (⟨2024, 2, 1, by decide, by decide, by decide⟩ :: laterDays) .monthly =
          .ok longer ∧ dates <+: longer :=
  deriveDecisionDates_prefix rfl

end FinDashboard.Research
