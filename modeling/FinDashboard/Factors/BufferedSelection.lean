import FinDashboard.Factors.Scorer
import Mathlib.Algebra.Order.Ring.Rat

/-!
# Selection with buffers

Holdings within the exit buffer come first, then entries within the entry buffer. The list is cut to its first
`topN` before the industries are capped, so that nobody behind the cut takes a place the cap leaves free.
-/

namespace FinDashboard.Factors

open Ledger List

variable {K : Type} [LinearOrder K]

structure SelectionConfig (K : Type) where
  topN : ℕ
  maxPerIndustry : Option ℕ
  entryBuffer : ℕ
  exitBuffer : ℕ
  minScore : K
  topN_pos : 0 < topN
  maxPerIndustry_pos : ∀ most ∈ maxPerIndustry, 0 < most

structure PortfolioSelection where
  selected : List String
  newlyAdded : List String
  removed : List String
  heldOver : List String
  compositeRanks : List (String × ℕ)

/-- `_apply_industry_cap`, from some counts on. -/
def applyIndustryCap (most : ℕ) (industryMap : List (String × String)) :
    List (String × ℕ) → List String → List String
  | _, [] => []
  | counts, sym :: rest =>
    let ind := industryOf industryMap sym
    let count := (find ind counts).getD 0
    if count < most then sym :: applyIndustryCap most industryMap (assign ind (count + 1) counts) rest
    else applyIndustryCap most industryMap counts rest

section

variable (result : ScoringResult K) (config : SelectionConfig K) (currentHoldings : List String)
  (industryMap : List (String × String))

def compositeRanks : List (String × ℕ) :=
  let ranks := (find "__composite__" result.factorRanks).getD []
  if ranks = [] then result.rankedSymbols.zipIdx 1 else ranks

def rankOf (sym : String) : ℕ := (find sym (compositeRanks result)).getD 999999

def entryThreshold : ℕ := max (config.topN - config.entryBuffer) 1

/-- A score that is no number is below no bound. -/
def isBelow (sym : String) : Bool :=
  match find sym result.compositeScores with
  | some (.finite score) => score < config.minScore
  | some .negInf => true
  | _ => false

def holds (sym : String) : Bool :=
  currentHoldings.contains sym && decide (rankOf result sym ≤ config.topN + config.exitBuffer)

def enters (sym : String) : Bool := decide (rankOf result sym ≤ entryThreshold config)

def holdCandidates : List String := result.rankedSymbols.filter fun sym =>
  !isBelow result config sym && holds result config currentHoldings sym

def entryCandidates : List String := result.rankedSymbols.filter fun sym =>
  !isBelow result config sym && !holds result config currentHoldings sym && enters result config sym

/-- The first candidates, before the industries are capped. -/
def uncapped : List String :=
  let selected := (holdCandidates result config currentHoldings).take config.topN
  selected ++ (entryCandidates result config currentHoldings).take (config.topN - selected.length)

def selectPortfolio : PortfolioSelection :=
  let selected := match config.maxPerIndustry with
    | some most =>
      if industryMap = [] then uncapped result config currentHoldings
      else applyIndustryCap most industryMap [] (uncapped result config currentHoldings)
    | none => uncapped result config currentHoldings
  { selected
    newlyAdded := selected.filter fun sym => !currentHoldings.contains sym
    removed := currentHoldings.filter fun sym => !selected.contains sym
    heldOver := selected.filter fun sym => currentHoldings.contains sym
    compositeRanks := compositeRanks result }

/-- A candidate of either kind. -/
def IsCandidate (sym : String) : Prop := sym ∈ result.rankedSymbols ∧ isBelow result config sym = false ∧
  (holds result config currentHoldings sym ∨ enters result config sym)

/-- As many of an industry are listed as may be; there is no bound without a map of the industries. -/
def Filled (listed : List String) (sym : String) : Prop := industryMap ≠ [] ∧ ∃ most ∈ config.maxPerIndustry,
  most ≤ listed.countP fun other => industryOf industryMap other = industryOf industryMap sym

structure RespectsLimits (selection : PortfolioSelection) : Prop where
  size : selection.selected.length ≤ config.topN
  capped : industryMap ≠ [] → ∀ most ∈ config.maxPerIndustry, ∀ industry,
    (selection.selected.countP fun sym => industryOf industryMap sym = industry) ≤ most
  entries : ∀ sym ∈ selection.selected, sym ∉ currentHoldings → rankOf result sym ≤ entryThreshold config
  parts : (selection.newlyAdded ++ selection.heldOver).Perm selection.selected ∧
    ∀ sym ∈ selection.newlyAdded, sym ∉ selection.heldOver
  removed : ∀ sym, sym ∈ selection.removed ↔ sym ∈ currentHoldings ∧ sym ∉ selection.selected
  maximal : ∀ sym, IsCandidate result config currentHoldings sym → sym ∉ selection.selected →
    selection.selected.length = config.topN ∨ Filled config industryMap selection.selected sym

/-- The industries leave the first candidates as they are, or admit none of those behind them. -/
def CapsLast : Prop :=
  (∀ sym ∈ uncapped result config currentHoldings, industryMap ≠ [] → ∀ most ∈ config.maxPerIndustry,
    ((uncapped result config currentHoldings).countP fun other =>
      industryOf industryMap other = industryOf industryMap sym) ≤ most) ∨
  ∀ sym, IsCandidate result config currentHoldings sym → sym ∉ uncapped result config currentHoldings →
    Filled config industryMap (uncapped result config currentHoldings) sym

end

variable {most : ℕ} {industryMap : List (String × String)} {counts : List (String × ℕ)}

theorem applyIndustryCap_sublist (listed : List String) :
    (applyIndustryCap most industryMap counts listed).Sublist listed := by
  induction listed generalizing counts with
  | nil => exact .slnil
  | cons sym rest ih =>
    unfold applyIndustryCap
    dsimp only
    split_ifs
    · exact ih.cons_cons sym
    · exact ih.cons sym

/-- Of every industry as many are taken as there are, and as the counts so far leave. -/
theorem countP_applyIndustryCap (listed : List String) (industry : String) :
    ((applyIndustryCap most industryMap counts listed).countP fun sym => industryOf industryMap sym = industry) =
      min (listed.countP fun sym => industryOf industryMap sym = industry)
        (most - (find industry counts).getD 0) := by
  induction listed generalizing counts with
  | nil => simp [applyIndustryCap]
  | cons sym rest ih =>
    unfold applyIndustryCap
    dsimp only
    by_cases same : industryOf industryMap sym = industry
    · subst same
      split_ifs with room
      · simp [ih]
        omega
      · simp [ih]
        omega
    · split_ifs with room
      · simp [ih, same]
      · simp [ih, same]

theorem full_of_not_mem {listed : List String} {sym : String} (member : sym ∈ listed)
    (passed : sym ∉ applyIndustryCap most industryMap counts listed) :
    most ≤ (applyIndustryCap most industryMap counts listed).countP
      (fun other => industryOf industryMap other = industryOf industryMap sym) +
        (find (industryOf industryMap sym) counts).getD 0 := by
  induction listed generalizing counts with
  | nil => cases member
  | cons first rest ih =>
    unfold applyIndustryCap at passed ⊢
    dsimp only at passed ⊢
    split_ifs at passed ⊢ with room
    · rw [mem_cons, not_or] at passed
      have later := ih ((mem_cons.mp member).resolve_left passed.1) passed.2
      by_cases same : industryOf industryMap first = industryOf industryMap sym
      · simp only [same, find_assign, if_true, Option.getD_some, countP_cons, decide_true] at later ⊢
        omega
      · simp only [same, find_assign, if_false, countP_cons, decide_false] at later ⊢
        simpa using later
    · rcases mem_cons.mp member with rfl | later
      · omega
      · exact ih later passed

/-- Where no industry has more than may be, nobody is passed over. -/
theorem applyIndustryCap_eq_self {listed : List String} (few : ∀ sym ∈ listed,
    (listed.countP fun other => industryOf industryMap other = industryOf industryMap sym) +
      (find (industryOf industryMap sym) counts).getD 0 ≤ most) :
    applyIndustryCap most industryMap counts listed = listed := by
  induction listed generalizing counts with
  | nil => rfl
  | cons first rest ih =>
    have room : (find (industryOf industryMap first) counts).getD 0 < most := by
      have bound := few first mem_cons_self
      simp only [countP_cons, decide_true, if_true] at bound
      omega
    unfold applyIndustryCap
    dsimp only
    rw [if_pos room, ih fun sym member => ?_]
    have bound := few sym (mem_cons_of_mem _ member)
    by_cases same : industryOf industryMap first = industryOf industryMap sym
    · simp only [same, find_assign, if_true, Option.getD_some, countP_cons, decide_true] at bound ⊢
      omega
    · simp only [same, find_assign, if_false, countP_cons, decide_false] at bound ⊢
      simpa using bound

variable {result : ScoringResult K} {config : SelectionConfig K} {currentHoldings : List String}

theorem uncapped_eq : uncapped result config currentHoldings =
    (holdCandidates result config currentHoldings ++ entryCandidates result config currentHoldings).take
      config.topN := by
  unfold uncapped
  dsimp only
  rw [take_append, length_take]
  congr 2
  omega

theorem isCandidate_iff {sym : String} : IsCandidate result config currentHoldings sym ↔
    sym ∈ holdCandidates result config currentHoldings ++ entryCandidates result config currentHoldings := by
  unfold IsCandidate holdCandidates entryCandidates
  rw [mem_append, mem_filter, mem_filter]
  cases isBelow result config sym <;> cases holds result config currentHoldings sym <;> simp

theorem uncapped_length (result : ScoringResult K) (config : SelectionConfig K) (currentHoldings : List String) :
    (uncapped result config currentHoldings).length ≤ config.topN ∧
    ∀ sym, IsCandidate result config currentHoldings sym → sym ∉ uncapped result config currentHoldings →
      (uncapped result config currentHoldings).length = config.topN := by
  rw [uncapped_eq, length_take]
  refine ⟨min_le_left _ _, fun sym candidate out => min_eq_left ?_⟩
  by_contra few
  rw [take_of_length_le (not_le.mp few).le] at out
  exact out (isCandidate_iff.mp candidate)

/-- What is selected: all of the first candidates, or what the industries leave of them. -/
theorem selected_cases (result : ScoringResult K) : (selectPortfolio result config currentHoldings industryMap).selected =
      uncapped result config currentHoldings ∧ (industryMap = [] ∨ config.maxPerIndustry = none) ∨
    ∃ most, config.maxPerIndustry = some most ∧ industryMap ≠ [] ∧
      (selectPortfolio result config currentHoldings industryMap).selected =
        applyIndustryCap most industryMap [] (uncapped result config currentHoldings) := by
  unfold selectPortfolio
  dsimp only
  cases config.maxPerIndustry with
  | none => exact Or.inl ⟨rfl, Or.inr rfl⟩
  | some most =>
    by_cases empty : industryMap = []
    · exact Or.inl ⟨if_pos empty, Or.inl empty⟩
    · exact Or.inr ⟨most, rfl, empty, if_neg empty⟩

theorem countP_selected (result : ScoringResult K) (currentHoldings : List String) {most : ℕ}
    (capped : config.maxPerIndustry = some most) (given : industryMap ≠ [])
    (industry : String) : ((selectPortfolio result config currentHoldings industryMap).selected.countP
        fun sym => industryOf industryMap sym = industry) =
      min ((uncapped result config currentHoldings).countP fun sym => industryOf industryMap sym = industry) most := by
  unfold selectPortfolio
  dsimp only
  rw [capped]
  dsimp only
  rw [if_neg given, countP_applyIndustryCap]
  rfl

theorem selected_sublist (result : ScoringResult K) (config : SelectionConfig K) (currentHoldings : List String)
    (industryMap : List (String × String)) : (selectPortfolio result config currentHoldings industryMap).selected.Sublist
    (uncapped result config currentHoldings) := by
  rcases selected_cases result with ⟨all, -⟩ | ⟨most, -, -, cut⟩
  · rw [all]
  · rw [cut]
    exact applyIndustryCap_sublist _

theorem maximal_of_capsLast (last : CapsLast result config currentHoldings industryMap) {sym : String}
    (candidate : IsCandidate result config currentHoldings sym)
    (out : sym ∉ (selectPortfolio result config currentHoldings industryMap).selected) :
    (selectPortfolio result config currentHoldings industryMap).selected.length = config.topN ∨
      Filled config industryMap (selectPortfolio result config currentHoldings industryMap).selected sym := by
  have enough := (uncapped_length result config currentHoldings).2 sym candidate
  rcases selected_cases result with ⟨all, -⟩ | ⟨most, capped, given, cut⟩
  · rw [all] at out ⊢
    exact Or.inl (enough out)
  · have count := countP_selected result currentHoldings capped given
    by_cases first : sym ∈ uncapped result config currentHoldings
    · rw [cut] at out ⊢
      exact Or.inr ⟨given, most, capped, full_of_not_mem first out⟩
    · rcases last with few | full
      · rw [cut, applyIndustryCap_eq_self fun other member => few other member given most capped]
        exact Or.inl (enough first)
      · obtain ⟨-, bound, same, filled⟩ := full sym candidate first
        obtain rfl := Option.some.inj (capped.symm.trans same)
        exact Or.inr ⟨given, most, capped, (count _).symm ▸ le_min filled le_rfl⟩

/-- The selection respects its limits exactly if the cap on industries comes last without harm. -/
theorem respectsLimits_iff (result : ScoringResult K) (config : SelectionConfig K) (currentHoldings : List String)
    (industryMap : List (String × String)) : RespectsLimits result config currentHoldings industryMap
      (selectPortfolio result config currentHoldings industryMap) ↔
        CapsLast result config currentHoldings industryMap := by
  have part := selected_sublist result config currentHoldings industryMap
  obtain ⟨size, enough⟩ := uncapped_length result config currentHoldings
  constructor
  · intro limits
    by_contra harm
    obtain ⟨crowded, blocked⟩ := not_or.mp harm
    push Not at crowded blocked
    obtain ⟨sym, member, given, most, capped, more⟩ := crowded
    obtain ⟨other, candidate, behind, unfilled⟩ := blocked
    rcases limits.maximal other candidate fun taken => behind (part.subset taken) with full | ⟨-, bound, same, filled⟩
    · have whole := part.eq_of_length_le (size.trans_eq full.symm)
      have fewer := limits.capped given most capped (industryOf industryMap sym)
      rw [whole] at fewer
      exact absurd more fewer.not_gt
    · exact unfilled ⟨given, bound, same, filled.trans (part.countP_le)⟩
  · intro last
    constructor
    · exact part.length_le.trans size
    · intro given most capped industry
      rw [countP_selected _ _ capped given]
      exact min_le_right _ _
    · intro sym member new
      have candidate : IsCandidate result config currentHoldings sym := by
        have taken := part.subset member
        rw [uncapped_eq] at taken
        exact isCandidate_iff.mpr (mem_of_mem_take taken)
      refine of_decide_eq_true (candidate.2.2.resolve_left fun held => new ?_)
      exact contains_iff_mem.mp ((Bool.and_eq_true _ _).mp held).1
    · constructor
      · have halves := filter_append_perm (fun sym => !currentHoldings.contains sym)
          (selectPortfolio result config currentHoldings industryMap).selected
        simp only [Bool.not_not] at halves
        exact halves
      · intro sym added held
        have outside := (mem_filter.mp added).2
        rw [(mem_filter.mp held).2] at outside
        cases outside
    · intro sym
      refine mem_filter.trans (and_congr_right fun _ => ?_)
      rw [Bool.not_eq_true', ← Bool.not_eq_true, contains_iff_mem]
      rfl
    · exact fun sym candidate out => maximal_of_capsLast last candidate out

def threeRanked : ScoringResult ℚ where
  compositeScores := [("A", .finite 3), ("B", .finite 2), ("C", .finite 1)]
  factorScores := []
  factorRanks := []
  coverage := []
  nEligible := 3
  nTotal := 3

/-- Two of them, of different industries. -/
def twoOfThree : SelectionConfig ℚ where
  topN := 2
  maxPerIndustry := some 1
  entryBuffer := 0
  exitBuffer := 3
  minScore := -10 ^ 9
  topN_pos := by decide
  maxPerIndustry_pos := by decide

/-- With A, B and C held, the first two share their industry, and C of another one does not replace B. -/
theorem third_not_selected : ¬RespectsLimits threeRanked twoOfThree ["A", "B", "C"]
    [("A", "bank"), ("B", "bank"), ("C", "steel")]
    (selectPortfolio threeRanked twoOfThree ["A", "B", "C"] [("A", "bank"), ("B", "bank"), ("C", "steel")]) := by
  intro limits
  have selected : (selectPortfolio threeRanked twoOfThree ["A", "B", "C"]
      [("A", "bank"), ("B", "bank"), ("C", "steel")]).selected = ["A"] := by decide +kernel
  have candidate : IsCandidate threeRanked twoOfThree ["A", "B", "C"] "C" :=
    ⟨by decide +kernel, by decide +kernel, Or.inl (by decide +kernel)⟩
  rcases limits.maximal "C" candidate (by rw [selected]; decide) with full | ⟨-, most, capped, filled⟩
  · rw [selected] at full
    cases full
  · obtain rfl := Option.some.inj capped
    rw [selected] at filled
    revert filled
    decide

end FinDashboard.Factors
