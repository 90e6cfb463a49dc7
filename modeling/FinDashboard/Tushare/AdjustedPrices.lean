import FinDashboard.Tushare.CacheRuns
import Mathlib.Tactic.FieldSimp
import Mathlib.Tactic.LinearCombination

/-!
# The basis of forward-adjusted prices

A fetched range is scaled to the last factor inside it. The cached series has one basis as long as
the ranges that are merged into it end on the same factor.
-/

namespace FinDashboard.Tushare

open FinDashboard.Runs (Guarded)

def History.rawClose (history : History) (date : ℤ) : Option ℚ :=
  (history.daily date).bind (·.close)

/-- Any two cached closes stand in the ratio of their raw closes times their factors. -/
def OneBasis (history : History) (st : CacheState) : Prop :=
  ∀ a ∈ st.bars, ∀ b ∈ st.bars, ∀ rawA rawB factorA factorB : ℚ,
    history.rawClose a.date = some rawA → history.adjFactor a.date = some factorA →
    history.rawClose b.date = some rawB → history.adjFactor b.date = some factorB →
      a.close * rawB * factorB = b.close * rawA * factorA

/-- The close is the raw close times its factor over the reference. -/
def OnBasis (history : History) (reference : ℚ) (bar : Bar) : Prop :=
  ∀ raw factor : ℚ, history.rawClose bar.date = some raw →
    history.adjFactor bar.date = some factor → bar.close * reference = raw * factor

/-- The ranges a call fetches, where they have bars, end on the factor the cache is scaled to. -/
def SameReference (history : History) (st : CacheState) (request : Request) : Prop :=
  ∃ reference, (∀ bar ∈ st.bars, OnBasis history reference bar) ∧
    ∀ range ∈ request.fetchRanges st,
      (∃ date, (range.1 ≤ date ∧ date ≤ range.2) ∧ history.hasBar .stock date = true) →
        history.reference .stock .qfq range = reference

section Basis

variable {history : History} {st : CacheState} {bar : Bar} {reference : ℚ}

theorem Built.close_eq (built : Built history .stock .qfq reference bar) :
    ∃ raw factor, history.rawClose bar.date = some raw ∧
      history.adjFactor bar.date = some factor ∧ bar.close = raw * (factor / reference) := by
  obtain ⟨row, found, made⟩ := built
  obtain ⟨close, multiplier, given, scaled, closed⟩ := ((rowBar_ok made).2 bar rfl).close_eq
  cases factored : history.adjFactor bar.date with
  | none =>
    rw [factored] at scaled
    cases scaled
  | some factor =>
    rw [factored] at scaled
    cases scaled
    exact ⟨close, factor, by simp [History.rawClose, found, given], rfl, closed⟩

theorem Built.close_pos (built : Built history .stock .qfq reference bar) : 0 < bar.close := by
  obtain ⟨row, -, made⟩ := built
  exact ((rowBar_ok made).2 bar rfl).close_pos

theorem Built.onBasis (built : Built history .stock .qfq reference bar) (positive : 0 < reference) :
    OnBasis history reference bar := by
  obtain ⟨raw, factor, given, factored, closed⟩ := built.close_eq
  intro raw' factor' given' factored'
  rw [given] at given'
  rw [factored] at factored'
  cases given'
  cases factored'
  have nonzero := ne_of_gt positive
  rw [closed]
  field_simp

theorem Built.basis_unique (built : Built history .stock .qfq reference bar)
    (positive : 0 < reference) {other : ℚ} (onOther : OnBasis history other bar) : reference = other := by
  obtain ⟨raw, factor, given, factored, -⟩ := built.close_eq
  have first := built.onBasis positive raw factor given factored
  have second := onOther raw factor given factored
  exact mul_left_cancel₀ (ne_of_gt built.close_pos) (first.trans second.symm)

/-- The cached closes stand in the right ratios when they are scaled to one reference. -/
theorem oneBasis_iff (sound : st.Sound history .stock .qfq) :
    OneBasis history st ↔ ∃ reference, ∀ bar ∈ st.bars, OnBasis history reference bar := by
  constructor
  · intro oneBasis
    cases cached : st.bars with
    | nil => exact ⟨1, List.forall_mem_nil _⟩
    | cons first rest =>
      have member := cached ▸ List.mem_cons_self
      obtain ⟨reference, positive, built⟩ := sound.built first member
      obtain ⟨rawA, factorA, givenA, factoredA, -⟩ := built.close_eq
      have scaled := built.onBasis positive rawA factorA givenA factoredA
      refine ⟨reference, ?_⟩
      intro b memberB raw factor given factored
      have ratio := oneBasis first member b (cached ▸ memberB) rawA raw factorA factor givenA
        factoredA given factored
      apply mul_left_cancel₀ (ne_of_gt built.close_pos)
      linear_combination b.close * scaled - ratio
  · rintro ⟨reference, onBasis⟩ a memberA b memberB rawA rawB factorA factorB givenA factoredA
      givenB factoredB
    have scaledA := onBasis a memberA rawA factorA givenA factoredA
    have scaledB := onBasis b memberB rawB factorB givenB factoredB
    linear_combination b.close * scaledA - a.close * scaledB

theorem oneBasis_perform_iff (serves : history.Serves .stock .qfq)
    (sound : st.Sound history .stock .qfq) (call : ProviderCall) :
    OneBasis history (call.perform history .stock .qfq st) ↔ SameReference history st call.request := by
  have fetched := perform_fetched serves sound call
  obtain ⟨apart, valid⟩ := apart_fetchRanges sound call.request
  rw [oneBasis_iff fetched.sound]
  constructor
  · rintro ⟨reference, onBasis⟩
    refine ⟨reference, ?_, ?_⟩
    · intro bar member
      apply onBasis bar
      apply fetched.old bar member
      rw [within_fetchRanges sound]
      exact fun missing => missing.2.2 (within_span sound member)
    · rintro range member ⟨date, inside, has⟩
      have positive : 0 < history.reference .stock .qfq range := serves.reference_pos
      obtain ⟨bar, built, rfl⟩ := exists_built serves positive has
      have cached := fetched.new apart valid range member bar ⟨inside, built⟩
      exact built.basis_unique serves.reference_pos (onBasis bar cached)
  · rintro ⟨reference, onBasis, same⟩
    refine ⟨reference, ?_⟩
    intro bar member
    rcases fetched.origin bar member with old | ⟨range, given, inside, built⟩
    · exact onBasis bar old
    · have has := hasBar_of_built serves serves.reference_pos built
      rw [← same range given ⟨bar.date, inside, has⟩]
      exact built.onBasis serves.reference_pos

end Basis

/-- In every sequence of calls, the cached closes have one basis after each call if and only if
each call fetches ranges that end on the factor the cache is scaled to. -/
theorem merged_prices_share_basis {history : History} (serves : history.Serves .stock .qfq)
    (calls : List ProviderCall) : Guarded (ProviderCall.perform history .stock .qfq)
        (fun st call => OneBasis history (call.perform history .stock .qfq st)) CacheState.start calls ↔
      Guarded (ProviderCall.perform history .stock .qfq)
        (fun st call => SameReference history st call.request) CacheState.start calls :=
  Guarded.iff_of_invariant (sound_start history .stock .qfq)
    (fun _ call sound => (perform_fetched serves sound call).sound)
    (fun _ call sound => oneBasis_perform_iff serves sound call)

/-- A stock that splits in two: its price halves on Wednesday and its factor doubles. -/
def splitHistory : History where
  daily := fun date =>
    if date < 3 then some ⟨some 10, some 10, some 10, some 10, some 1000, some 1000⟩
    else some ⟨some 5, some 5, some 5, some 5, some 2000, some 1000⟩
  adjFactor := fun date => if date < 3 then some 1 else some 2

theorem splitHistory_serves : splitHistory.Serves .stock .qfq := by
  apply serves_of_priced
  · decide
  · intro date factor given
    simp only [splitHistory] at given
    split at given
    · rw [← Option.some.inj given]
      exact one_pos
    · rw [← Option.some.inj given]
      exact two_pos
  · intro date row given
    simp only [splitHistory] at given
    split at given
    · rw [← Option.some.inj given]
      exact ⟨10, 10, 10, 10, 1000, 1000, rfl, by norm_num, by norm_num, by norm_num, by norm_num⟩
    · rw [← Option.some.inj given]
      exact ⟨5, 5, 5, 5, 2000, 1000, rfl, by norm_num, by norm_num, by norm_num, by norm_num⟩
  · intro date row _
    simp only [splitHistory]
    split
    · exact ⟨1, rfl⟩
    · exact ⟨2, rfl⟩

/-- One range over the split is scaled to one reference. -/
theorem merged_prices_share_basis_week :
    Guarded (ProviderCall.perform splitHistory .stock .qfq)
        (fun st call => OneBasis splitHistory (call.perform splitHistory .stock .qfq st))
        CacheState.start [.updateCache { start := 1, last := 5, today := 100, hour := 22 }] ↔
      Guarded (ProviderCall.perform splitHistory .stock .qfq)
        (fun st call => SameReference splitHistory st call.request)
        CacheState.start [.updateCache { start := 1, last := 5, today := 100, hour := 22 }] :=
  merged_prices_share_basis splitHistory_serves _

/-- Two ranges that meet at the split leave a jump: the closes 10 and 5 are both unadjusted. -/
theorem ranges_jump_at_split :
    ¬ Guarded (ProviderCall.perform splitHistory .stock .qfq)
        (fun st call => OneBasis splitHistory (call.perform splitHistory .stock .qfq st))
        CacheState.start
        [.updateCache { start := 1, last := 2, today := 100, hour := 22 },
          .updateCache { start := 1, last := 4, today := 100, hour := 22 }] := by
  rintro ⟨-, oneBasis, -⟩
  have jump := oneBasis ⟨2, 10, 10, 10, 10, 100000, 1000000, "tushare"⟩ (by decide +kernel)
    ⟨3, 5, 5, 5, 5, 200000, 1000000, "tushare"⟩ (by decide +kernel) 10 5 1 2
    rfl rfl rfl rfl
  norm_num at jump

end FinDashboard.Tushare
