import FinDashboard.Factors.IterationOrder
import Mathlib.Data.Rat.Floor

/-!
# Equal scores are ranked as they come

Two runs over the same dictionaries and sets, walked in any order, agree on every score. They agree
on every rank where no two symbols have the same score: `sorted` compares scores only.
-/

namespace FinDashboard.Factors

open Ledger List

variable {K : Type}

/-- What the scorer is given; a dictionary lists each symbol once. -/
structure ScoringInputs (K : Type) where
  matrix : FactorMatrix K
  industryMap : List (String × String)
  marketCaps : Option (Column K)
  matrix_keyed : Keyed matrix
  industryMap_keyed : (industryMap.map Prod.fst).Nodup
  marketCaps_keyed : ∀ caps ∈ marketCaps, (caps.map Prod.fst).Nodup

/-- The orders in which one run walks the dictionaries of its inputs, and sets. -/
structure IterationOrder (inputs : ScoringInputs K) where
  matrix : FactorMatrix K
  industryMap : List (String × String)
  marketCaps : Option (Column K)
  iterate : List String → List String
  matrix_reordered : Reordered inputs.matrix matrix
  industryMap_perm : inputs.industryMap.Perm industryMap
  marketCaps_perm : inputs.marketCaps.Rel List.Perm marketCaps
  iterate_perm : ∀ symbols, (iterate symbols).Perm symbols

def IterationOrder.given (inputs : ScoringInputs K) (iterate : List String → List String)
    (iterate_perm : ∀ symbols, (iterate symbols).Perm symbols) : IterationOrder inputs where
  matrix := inputs.matrix
  industryMap := inputs.industryMap
  marketCaps := inputs.marketCaps
  iterate := iterate
  matrix_reordered := Reordered.refl _
  industryMap_perm := List.Perm.refl _
  marketCaps_perm := by
    cases inputs.marketCaps with
    | none => exact .none
    | some caps => exact .some (List.Perm.refl caps)
  iterate_perm := iterate_perm

def IterationOrder.withColumn (inputs : ScoringInputs K) {name : String} {raw moved : Column K}
    (known : find name inputs.matrix = some raw) (shuffled : raw.Perm moved) : IterationOrder inputs :=
  { IterationOrder.given inputs id fun symbols => List.Perm.refl symbols with
    matrix := assign name moved inputs.matrix
    matrix_reordered := Reordered.assign known shuffled }

variable {name : String}

@[simp] theorem IterationOrder.withColumn_matrix {inputs : ScoringInputs K}
    {raw moved : Column K} (known : find name inputs.matrix = some raw) (shuffled : raw.Perm moved) :
    (IterationOrder.withColumn inputs known shuffled).matrix = assign name moved inputs.matrix :=
  rfl

section

variable [Field K] [LinearOrder K]

def ScoringResult.rank (result : ScoringResult K) (name symbol : String) : Option ℕ :=
  (find name result.factorRanks).bind (find symbol)

/-- Two results give every symbol the same composite score and ranks, and list the symbols in the
same order. -/
structure Agree (result other : ScoringResult K) : Prop where
  composite : ∀ symbol,
    find symbol result.compositeScores = find symbol other.compositeScores
  ranks : ∀ name symbol, result.rank name symbol = other.rank name symbol
  ranked : result.rankedSymbols = other.rankedSymbols

/-- No two symbols have the same finite score. -/
def Untied (scores : Column K) : Prop :=
  ∀ a ∈ scores, ∀ b ∈ scores, ∀ x, a.2 = .finite x → b.2 = .finite x → a = b

end

variable {a b : String × Value K}

section

variable [LinearOrder K] {scores others : Column K}

omit [LinearOrder K] in
theorem mem_validEntries {entry : String × K} :
    entry ∈ validEntries scores ↔ (entry.1, Value.finite entry.2) ∈ scores := by
  unfold validEntries
  rw [mem_filterMap]
  constructor
  · rintro ⟨⟨symbol, value⟩, member, valid⟩
    cases value with
    | finite x =>
      cases valid
      exact member
    | posInf => cases valid
    | negInf => cases valid
    | nan => cases valid
  · intro member
    exact ⟨_, member, rfl⟩

theorem rankedSymbols_nodup (keyed : (scores.map Prod.fst).Nodup) : (rankedSymbols scores).Nodup := by
  have keys : ∀ column : Column K,
      ((validEntries column).map (·.1)).Sublist (column.map (·.1)) := by
    intro column
    induction column with
    | nil => exact List.Sublist.slnil
    | cons row rest ih =>
      unfold validEntries
      rw [filterMap_cons]
      cases row.2.finite? with
      | none => exact ih.cons row.1
      | some x => exact ih.cons_cons row.1
  have entries := (keys scores).nodup keyed
  exact (sortedOn_perm.map _).nodup_iff.mpr entries

theorem rankedSymbols_perm [Field K] (untied : Untied scores) (moved : scores.Perm others) :
    rankedSymbols others = rankedSymbols scores := by
  have entries : (validEntries scores).Perm (validEntries others) := moved.filterMap _
  have apart : ∀ a ∈ validEntries scores, ∀ b ∈ validEntries scores,
      OrderDual.toDual a.2 = OrderDual.toDual b.2 → a = b := by
    intro a first b second same
    have equal : a.2 = b.2 := same
    have rows : (a.1, Value.finite a.2) = (b.1, Value.finite b.2) :=
      untied _ (mem_validEntries.mp first) _ (mem_validEntries.mp second) a.2 rfl
        (congrArg Value.finite equal.symm)
    exact Prod.ext (Prod.ext_iff.mp rows).1 equal
  rw [rankedSymbols, rankedSymbols, sortedOn_eq_of_perm entries apart]

/-- Two rows with the same score are ranked in the order in which they come. -/
theorem tied_sublist_rankedSymbols {x : K} (left : a.2 = .finite x) (right : b.2 = .finite x)
    (given : List.Sublist [a, b] scores) : List.Sublist [a.1, b.1] (rankedSymbols scores) := by
  have valid : validEntries [a, b] = [(a.1, x), (b.1, x)] := by
    simp only [validEntries, filterMap_cons, left, right, Value.finite?, Option.map_some, filterMap_nil]
  have entries : List.Sublist [(a.1, x), (b.1, x)] (validEntries scores) :=
    valid ▸ given.filterMap _
  have sorted : List.Sublist [(a.1, x), (b.1, x)]
      (sortedOn (fun entry => OrderDual.toDual entry.2) (validEntries scores)) :=
    tied_sublist_sortedOn (le_refl _) entries
  exact sorted.map (·.1)

theorem find_zipIdx {symbols : List String} {symbol : String} {start : ℕ} (member : symbol ∈ symbols) :
    find symbol (symbols.zipIdx start) = some (symbols.idxOf symbol + start) := by
  induction symbols generalizing start with
  | nil => cases member
  | cons first rest ih =>
    rw [zipIdx_cons, find_cons]
    by_cases same : first = symbol
    · rw [if_pos same, ← same, idxOf_cons_self, Nat.zero_add]
    · have behind := mem_of_ne_of_mem (Ne.symm same) member
      rw [if_neg same, ih behind, idxOf_cons_ne _ same]
      congr 1
      omega

end

section

variable [Field K] [LinearOrder K] [FloorSemiring K] (numerics : Numerics K)
  (catalog : String → Option (FactorMeta K)) (config : ScoringConfig K)
  (inputs : ScoringInputs K)

def IterationOrder.score {inputs : ScoringInputs K} (order : IterationOrder inputs) :
    Except String (ScoringResult K) :=
  Factors.score numerics catalog config order.iterate order.matrix order.industryMap
    order.marketCaps

/-- Any two runs fail with the same error, or return results that agree. -/
def IterationFree : Prop := ∀ order other : IterationOrder inputs,
  SameOutcome Agree (order.score numerics catalog config) (other.score numerics catalog config)

def inputScores : Except String (FactorMatrix K) :=
  factorScores numerics catalog config inputs.matrix inputs.industryMap inputs.marketCaps

/-- No factor and not the combination gives two symbols the same score. -/
def TieFree : Prop := ∀ scores, inputScores numerics catalog config inputs = .ok scores →
  (∀ factor ∈ scores, factor.1 ≠ "__composite__" → Untied factor.2) ∧
    Untied (combineScores scores config.combination id)

omit [Field K] [LinearOrder K] [FloorSemiring K] in
theorem collectSymbols_reordered {matrix other : FactorMatrix K} (moved : Reordered matrix other) :
    (collectSymbols matrix).Perm (collectSymbols other) := by
  refine (perm_ext_iff_of_nodup (nodup_dedup _) (nodup_dedup _)).mpr fun symbol => ?_
  rw [mem_dedup, mem_dedup]
  induction moved with
  | nil => rfl
  | cons same _ ih =>
    rw [flatMap_cons, flatMap_cons, mem_append, mem_append, ih, (same.2.map _).mem_iff]

omit [Field K] [FloorSemiring K] in
theorem find_computeRanks (scores : FactorMatrix K) (composite : Column K) (name : String) :
    find name (computeRanks scores composite) =
      if "__composite__" = name then some (rankDict composite)
      else (find name scores).map rankDict := by
  unfold computeRanks
  rw [find_assign, find_map rankDict]

theorem inputScores_reordered {inputs : ScoringInputs K} (order : IterationOrder inputs) :
    SameOutcome Reordered (inputScores numerics catalog config inputs)
      (factorScores numerics catalog config order.matrix order.industryMap order.marketCaps) :=
  factorScores_reordered inputs.matrix_keyed inputs.industryMap_keyed inputs.marketCaps_keyed
    order.matrix_reordered order.industryMap_perm order.marketCaps_perm

variable {numerics catalog config inputs}

omit [FloorSemiring K] in
theorem computeRanks_reordered {scores others : FactorMatrix K} {composite moved : Column K}
    (untied : ∀ factor ∈ scores, factor.1 ≠ "__composite__" → Untied factor.2)
    (combined : Untied composite) (reordered : Reordered scores others)
    (shuffled : composite.Perm moved) (name : String) :
    find name (computeRanks others moved) = find name (computeRanks scores composite) := by
  rw [find_computeRanks, find_computeRanks]
  split_ifs with isComposite
  · rw [rankDict, rankDict, rankedSymbols_perm combined shuffled]
  · have columns := reordered.find_rel name
    cases first : find name scores with
    | none =>
      rw [first] at columns
      generalize find name others = second at columns
      cases columns
      rfl
    | some column =>
      have alone := untied _ (mem_of_find first) (Ne.symm isComposite)
      rw [first] at columns
      generalize find name others = second at columns
      cases columns with
      | some perm => simp only [Option.map_some, rankDict, rankedSymbols_perm alone perm]

omit [Field K] [LinearOrder K] [FloorSemiring K] in
theorem collectSymbols_eq_nil (order : IterationOrder inputs) :
    collectSymbols order.matrix = [] ↔ collectSymbols inputs.matrix = [] :=
  not_iff_not.mp (perm_ne_nil (collectSymbols_reordered order.matrix_reordered))

theorem score_eq (order : IterationOrder inputs) (symbols : collectSymbols inputs.matrix ≠ [])
    {scores : FactorMatrix K}
    (scored : factorScores numerics catalog config order.matrix order.industryMap
      order.marketCaps = .ok scores) : ∃ result, order.score numerics catalog config = .ok result ∧
      result.compositeScores = combineScores scores config.combination order.iterate ∧
      result.factorRanks =
        computeRanks scores (combineScores scores config.combination order.iterate) := by
  rw [IterationOrder.score, score, if_neg (mt (collectSymbols_eq_nil order).mp symbols), scored]
  exact ⟨_, rfl, rfl, rfl⟩

theorem order_scores (order : IterationOrder inputs) {scores : FactorMatrix K}
    (scored : inputScores numerics catalog config inputs = .ok scores) :
    ∃ others, factorScores numerics catalog config order.matrix order.industryMap
      order.marketCaps = .ok others ∧ Reordered scores others := by
  have outcome := inputScores_reordered numerics catalog config order
  rw [scored] at outcome
  generalize factorScores numerics catalog config order.matrix order.industryMap
    order.marketCaps = run at outcome ⊢
  cases outcome with
  | @ok _ others reordered => exact ⟨others, rfl, reordered⟩

theorem score_agrees (order : IterationOrder inputs) (symbols : collectSymbols inputs.matrix ≠ [])
    (tieFree : TieFree numerics catalog config inputs) {scores : FactorMatrix K}
    (scored : inputScores numerics catalog config inputs = .ok scores) :
    ∃ result, order.score numerics catalog config = .ok result ∧
      (∀ symbol, find symbol result.compositeScores =
        find symbol (combineScores scores config.combination id)) ∧
      (∀ name, find name result.factorRanks =
        find name (computeRanks scores (combineScores scores config.combination id))) ∧
      result.rankedSymbols = rankedSymbols (combineScores scores config.combination id) := by
  obtain ⟨others, moved, reordered⟩ := order_scores order scored
  obtain ⟨untied, combined⟩ := tieFree scores scored
  have keyed := factorScores_keyed inputs.matrix_keyed scored
  have shuffled : (combineScores scores config.combination id).Perm
      (combineScores others config.combination order.iterate) :=
    combineScores_perm keyed reordered (fun symbols => List.Perm.refl (id symbols))
      order.iterate_perm
  have composites : ((combineScores scores config.combination id).map Prod.fst).Nodup :=
    combineScores_keyed fun symbols => List.Perm.refl (id symbols)
  obtain ⟨result, ran, composite, ranks⟩ := score_eq order symbols moved
  refine ⟨result, ran, fun symbol => ?_, fun name => ?_, ?_⟩
  · rw [composite, find_perm composites shuffled]
  · rw [ranks, computeRanks_reordered untied combined reordered shuffled]
  · rw [ScoringResult.rankedSymbols, composite, rankedSymbols_perm combined shuffled]

theorem score_error (order : IterationOrder inputs) (symbols : collectSymbols inputs.matrix ≠ [])
    (failed : inputScores numerics catalog config inputs = .error name) :
    order.score numerics catalog config = .error name := by
  have outcome := inputScores_reordered numerics catalog config order
  rw [failed] at outcome
  generalize moved : factorScores numerics catalog config order.matrix order.industryMap
    order.marketCaps = run at outcome
  cases outcome
  rw [IterationOrder.score, score, if_neg (mt (collectSymbols_eq_nil order).mp symbols), moved]
  rfl

theorem iterationFree_of_tieFree (tieFree : TieFree numerics catalog config inputs) :
    IterationFree numerics catalog config inputs := by
  intro order other
  by_cases symbols : collectSymbols inputs.matrix = []
  · rw [IterationOrder.score, IterationOrder.score, score, score,
      if_pos ((collectSymbols_eq_nil order).mpr symbols),
      if_pos ((collectSymbols_eq_nil other).mpr symbols)]
    exact .ok ⟨fun _ => rfl, fun _ _ => rfl, rfl⟩
  cases scored : inputScores numerics catalog config inputs with
  | error name =>
    rw [score_error order symbols scored, score_error other symbols scored]
    exact .error name
  | ok scores =>
    obtain ⟨result, ran, composite, ranks, ranked⟩ := score_agrees order symbols tieFree scored
    obtain ⟨result', ran', composite', ranks', ranked'⟩ :=
      score_agrees other symbols tieFree scored
    rw [ran, ran']
    exact .ok {
      composite := fun symbol => (composite symbol).trans (composite' symbol).symm
      ranks := fun name symbol => by
        rw [ScoringResult.rank, ScoringResult.rank, ranks, ranks']
      ranked := ranked.trans ranked'.symm }

omit [Field K] [LinearOrder K] [FloorSemiring K] in
theorem collectSymbols_ne_nil {matrix : FactorMatrix K} {raw : Column K}
    (known : find name matrix = some raw) (rows : raw ≠ []) : collectSymbols matrix ≠ [] := by
  obtain ⟨row, member⟩ := exists_mem_of_ne_nil raw rows
  have listed : row.1 ∈ collectSymbols matrix :=
    mem_dedup.mpr (mem_flatMap.mpr ⟨_, mem_of_find known, mem_map_of_mem member⟩)
  exact ne_nil_of_mem listed

theorem exists_raw {scores : FactorMatrix K}
    (scored : inputScores numerics catalog config inputs = .ok scores)
    {factor : String × Column K} (member : factor ∈ scores) (rows : factor.2 ≠ []) :
    ∃ raw, find factor.1 inputs.matrix = some raw ∧ raw ≠ [] := by
  obtain ⟨factorMeta, known, treated⟩ := factorScores_column scored member
  have keys := (rowWise_processFactor numerics config factorMeta inputs.industryMap
    (capsOf config inputs.matrix inputs.marketCaps)).keys (inputs.matrix_keyed.find factor.1)
  rw [← treated] at keys
  have raws : (find factor.1 inputs.matrix).getD [] ≠ [] := by
    intro none
    rw [none] at keys
    exact rows (map_eq_nil_iff.mp keys)
  cases given : find factor.1 inputs.matrix with
  | none => exact absurd (by rw [given]; rfl) raws
  | some raw => exact ⟨raw, rfl, by simpa [given] using raws⟩

omit [Field K] [FloorSemiring K] in
theorem rank_lt_of_sublist {result : ScoringResult K} {name a b : String} {column : Column K}
    (ranks : find name result.factorRanks = some (rankDict column))
    (keyed : (column.map Prod.fst).Nodup) (before : List.Sublist [a, b] (rankedSymbols column)) :
    ∃ i j, result.rank name a = some i ∧ result.rank name b = some j ∧ i < j := by
  have members : a ∈ rankedSymbols column ∧ b ∈ rankedSymbols column := by
    simpa using before.subset
  have earlier := idxOf_lt_of_sublist (rankedSymbols_nodup keyed) before
  refine ⟨(rankedSymbols column).idxOf a + 1, (rankedSymbols column).idxOf b + 1, ?_, ?_, by omega⟩
  · rw [ScoringResult.rank, ranks, Option.bind_some, rankDict, find_zipIdx members.1]
  · rw [ScoringResult.rank, ranks, Option.bind_some, rankDict, find_zipIdx members.2]

/-- A run whose column has the first of two tied symbols in front ranks it before the other. -/
theorem exists_rank_lt {scores : FactorMatrix K}
    (scored : inputScores numerics catalog config inputs = .ok scores)
    {factor : String × Column K} (member : factor ∈ scores) (own : factor.1 ≠ "__composite__")
    (first : a ∈ factor.2) (second : b ∈ factor.2) {x : K}
    (left : a.2 = .finite x) (right : b.2 = .finite x) (distinct : a.1 ≠ b.1) :
    ∃ (order : IterationOrder inputs) (result : ScoringResult K),
      order.score numerics catalog config = .ok result ∧
        ∃ i j, result.rank factor.1 a.1 = some i ∧ result.rank factor.1 b.1 = some j ∧ i < j := by
  obtain ⟨factorMeta, known, treated⟩ := factorScores_column scored member
  have rowWise := rowWise_processFactor numerics config factorMeta inputs.industryMap
    (capsOf config inputs.matrix inputs.marketCaps)
  have columnKeyed := inputs.matrix_keyed.find factor.1
  obtain ⟨raw, given, rows⟩ := exists_raw scored member (ne_nil_of_mem first)
  rw [given, Option.getD_some] at treated columnKeyed
  rw [treated] at first second
  obtain ⟨moved, shuffled, ahead⟩ := rowWise.exists_sublist columnKeyed first second distinct
  let order := IterationOrder.withColumn inputs given shuffled
  obtain ⟨others, again, reordered⟩ := order_scores order scored
  obtain ⟨column, found, perm⟩ := reordered.find_of_mem (factorScores_names scored) member
  obtain ⟨result, ran, _, ranks⟩ := score_eq order (collectSymbols_ne_nil given rows) again
  refine ⟨order, result, ran, ?_⟩
  -- The moved column is treated as the given one is.
  obtain ⟨sameMeta, knownAgain, treatedAgain⟩ := factorScores_column again (mem_of_find found)
  rw [known] at knownAgain
  cases knownAgain
  have located : find factor.1 order.matrix = some moved := by
    rw [IterationOrder.withColumn_matrix, find_assign, if_pos rfl]
  have same := processFactor_congr numerics config factorMeta inputs.industryMap_keyed
    order.industryMap_perm (capsOf_keyed config inputs.matrix_keyed inputs.marketCaps_keyed)
    (capsOf_perm config order.matrix_reordered order.marketCaps_perm)
  rw [located, Option.getD_some, same] at treatedAgain
  rw [← treatedAgain] at ahead
  have keyed := factorScores_keyed inputs.matrix_keyed scored _ member
  refine rank_lt_of_sublist ?_ ((perm.map _).nodup_iff.mp keyed) ?_
  · rw [ranks, find_computeRanks, if_neg (Ne.symm own), found]
    rfl
  · exact tied_sublist_rankedSymbols left right ahead

/-- A run that walks the first of two tied symbols first lists it first. -/
theorem exists_idxOf_lt {scores : FactorMatrix K}
    (scored : inputScores numerics catalog config inputs = .ok scores)
    (symbols : collectSymbols inputs.matrix ≠ []) (first : a ∈ combineScores scores config.combination id)
    (second : b ∈ combineScores scores config.combination id) {x : K}
    (left : a.2 = .finite x) (right : b.2 = .finite x) (distinct : a.1 ≠ b.1) :
    ∃ (order : IterationOrder inputs) (result : ScoringResult K),
      order.score numerics catalog config = .ok result ∧
        result.rankedSymbols.idxOf a.1 < result.rankedSymbols.idxOf b.1 := by
  obtain ⟨p, firstSymbol, rfl⟩ := mem_map.mp first
  obtain ⟨q, secondSymbol, rfl⟩ := mem_map.mp second
  let order := IterationOrder.given inputs (pull fun symbol => symbol = p) fun symbols =>
    pull_perm _ symbols
  obtain ⟨result, ran, composite, _⟩ := score_eq order symbols scored
  have ahead : List.Sublist [p, q] (order.iterate (combinedSymbols scores config.combination)) :=
    pair_sublist_pull firstSymbol secondSymbol (decide_eq_true rfl)
      (decide_eq_false (Ne.symm distinct))
  have rows := ahead.map fun symbol =>
    (symbol, compositeScore scores config.combination symbol)
  have keyed : ((combineScores scores config.combination order.iterate).map Prod.fst).Nodup :=
    combineScores_keyed order.iterate_perm
  refine ⟨order, result, ran, ?_⟩
  rw [ScoringResult.rankedSymbols, composite]
  exact idxOf_lt_of_sublist (rankedSymbols_nodup keyed)
    (tied_sublist_rankedSymbols left right rows)

theorem tieFree_of_iterationFree (free : IterationFree numerics catalog config inputs) :
    TieFree numerics catalog config inputs := by
  intro scores scored
  constructor
  · intro factor member own a first b second x left right
    by_contra different
    have distinct : a.1 ≠ b.1 := fun same => different (Prod.ext same (left.trans right.symm))
    obtain ⟨order, result, ran, i, j, firstRank, secondRank, before⟩ :=
      exists_rank_lt scored member own first second left right distinct
    obtain ⟨other, result', ran', j', i', secondRank', firstRank', after⟩ :=
      exists_rank_lt scored member own second first right left (Ne.symm distinct)
    have outcome := free order other
    rw [ran, ran'] at outcome
    cases outcome with
    | ok agree =>
      have firsts : some i = some i' := by
        rw [← firstRank, ← firstRank', agree.ranks]
      have seconds : some j = some j' := by
        rw [← secondRank, ← secondRank', agree.ranks]
      cases firsts
      cases seconds
      omega
  · intro a first b second x left right
    by_contra different
    have distinct : a.1 ≠ b.1 := fun same => different (Prod.ext same (left.trans right.symm))
    have symbols : collectSymbols inputs.matrix ≠ [] := by
      obtain ⟨p, listed, _⟩ := mem_map.mp first
      obtain ⟨weight, _, scoredSymbol⟩ := mem_flatMap.mp (mem_dedup.mp listed)
      cases found : find weight.factorName scores with
      | none =>
        rw [scoresOf, found] at scoredSymbol
        cases scoredSymbol
      | some column =>
        rw [scoresOf, found] at scoredSymbol
        obtain ⟨row, member, _⟩ := mem_map.mp scoredSymbol
        obtain ⟨raw, given, rows⟩ :=
          exists_raw scored (mem_of_find found) (ne_nil_of_mem member)
        exact collectSymbols_ne_nil given rows
    obtain ⟨order, result, ran, before⟩ :=
      exists_idxOf_lt scored symbols first second left right distinct
    obtain ⟨other, result', ran', after⟩ :=
      exists_idxOf_lt scored symbols second first right left (Ne.symm distinct)
    have outcome := free order other
    rw [ran, ran'] at outcome
    cases outcome with
    | ok agree =>
      rw [agree.ranked] at before
      omega

end

/-- One factor that two symbols share the value of. -/
def tiedInputs : ScoringInputs ℚ where
  matrix := [("pb", [("A", .finite 1), ("B", .finite 1)])]
  industryMap := []
  marketCaps := none
  matrix_keyed := by
    intro factor member
    obtain rfl := mem_singleton.mp member
    decide
  industryMap_keyed := nodup_nil
  marketCaps_keyed := nofun

def tiedConfig : ScoringConfig ℚ where
  combination := {
    weights := [{
      factorName := "pb"
      weight := 1
      weight_nonneg := by decide +kernel
      weight_le := by decide +kernel }]
    weights_ne_nil := cons_ne_nil _ _
    weights_total := by decide +kernel
    names_nodup := nodup_singleton _ }

def tiedCatalog (name : String) : Option (FactorMeta ℚ) :=
  if name = "pb" then
    some { long := true, winsorizeLowerPct := 1 / 100, winsorizeUpperPct := 99 / 100 }
  else none

def tiedNumerics : Numerics ℚ where
  sqrt := id
  log := id
  lstsq := fun _ => (0, 0)

end FinDashboard.Factors
