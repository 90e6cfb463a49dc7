import FinDashboard.Runs.Fallible
import FinDashboard.Selection.Selector
import Mathlib.Data.Rat.Floor

/-!
# What a published selection says

Every selected symbol is an eligible member of the universe, has the required factors and stays
within the bounds; the caps hold, and only a full industry makes the selection pass over a
candidate.
-/

namespace FinDashboard.Selection

open Ledger Text List

theorem normalized_perm {strip upper : String → String} {staticUniverse others : List String}
    (reordered : staticUniverse.Perm others) :
    normalized strip upper others = normalized strip upper staticUniverse :=
  sortedSet_congr fun _ => (reordered.map _).symm.mem_iff

variable {K : Type}

theorem mem_of_recordsBySymbol {records : List (FactorInputRecord K)} {record : FactorInputRecord K}
    {symbol : String} (found : find symbol (recordsBySymbol records) = some record) :
    record ∈ records ∧ record.symbol = symbol := by
  have entries : ∀ entry ∈ recordsBySymbol records, entry.2 ∈ records ∧
      entry.2.symbol = entry.1 := by
    unfold recordsBySymbol
    have step : ∀ (rows : List (FactorInputRecord K)) (known : List (String × FactorInputRecord K)),
        (∀ entry ∈ known, entry.2 ∈ records ∧ entry.2.symbol = entry.1) →
          (∀ row ∈ rows, row ∈ records) →
            ∀ entry ∈ rows.foldl (fun known record => assign record.symbol record known) known,
              entry.2 ∈ records ∧ entry.2.symbol = entry.1 := by
      intro rows
      induction rows with
      | nil => exact fun known inside _ => inside
      | cons row rest ih =>
        intro known inside rows_in
        refine ih _ (fun entry member => ?_) fun other later =>
          rows_in other (mem_cons_of_mem _ later)
        obtain rfl | old := mem_assign member
        · exact ⟨rows_in row mem_cons_self, rfl⟩
        · exact inside entry old
    exact step records [] (fun _ member => absurd member not_mem_nil) fun _ member => member
  exact entries _ (mem_of_find found)

section

variable {records others : List (FactorInputRecord K)} (single : (records.map (·.symbol)).Nodup)
include single

/-- With one record for each symbol the dictionary holds the records as they are listed. -/
theorem recordsBySymbol_eq_map :
    recordsBySymbol records = records.map fun record => (record.symbol, record) := by
  have apart : (([] : List (String × FactorInputRecord K)).map (·.1) ++
      records.map (·.symbol)).Nodup := by simpa using single
  exact foldl_assign apart

theorem recordsBySymbol_perm (shuffled : records.Perm others) :
    (recordsBySymbol records).Perm (recordsBySymbol others) := by
  have apart := (shuffled.map _).nodup_iff.mp single
  rw [recordsBySymbol_eq_map single, recordsBySymbol_eq_map apart]
  exact shuffled.map _

theorem find_recordsBySymbol_perm (shuffled : records.Perm others) (symbol : String) :
    find symbol (recordsBySymbol others) = find symbol (recordsBySymbol records) := by
  refine find_perm ?_ (recordsBySymbol_perm single shuffled)
  rw [recordsBySymbol_eq_map single, map_map]
  exact single

end

variable [LinearOrder K]

theorem demand_eq_ok {holds : Bool} {reason : String} {done : Unit} :
    demand holds reason = .ok done ↔ holds = true := by
  cases holds <;> simp [demand]

theorem noIssue_eq_ok {issue : Option String} {done : Unit} :
    noIssue issue = .ok done ↔ issue = none := by
  cases issue <;> simp [noIssue]

section

variable {config : FactorSelectionConfig K} {factor : FactorName}

theorem mem_requiredFactors : factor ∈ requiredFactors config ↔ requires config factor = true := by
  have known : factor ∈ FactorName.catalog := by cases factor <;> decide
  simp [requiredFactors, known]

/-- The bounds of the rules on the factor values of a symbol. -/
structure WithinBounds (config : FactorSelectionConfig K) (value : FactorName → Option K) : Prop
    where
  minMarketCap : ∀ low ∈ config.minMarketCap, ∃ x ∈ value .marketCap, low ≤ x
  maxMarketCap : ∀ high ∈ config.maxMarketCap, ∃ x ∈ value .marketCap, x ≤ high
  minPb : ∀ low ∈ config.minPb, ∃ x ∈ value .pb, low ≤ x
  maxPb : ∀ high ∈ config.maxPb, ∃ x ∈ value .pb, x ≤ high
  minTurnoverRate : ∀ low ∈ config.minTurnoverRate, ∃ x ∈ value .turnoverRate, low ≤ x
  maxTurnoverRate : ∀ high ∈ config.maxTurnoverRate, ∃ x ∈ value .turnoverRate, x ≤ high
  minMomentum : ∀ low ∈ config.minMomentum, ∃ x ∈ value .momentum, low ≤ x
  minRoe : ∀ low ∈ config.minRoe, ∃ x ∈ value .roe, low ≤ x
  minGrossProfitMargin : ∀ low ∈ config.minGrossProfitMargin, ∃ x ∈ value .grossProfitMargin, low ≤ x
  minRevenueYoy : ∀ low ∈ config.minRevenueYoy, ∃ x ∈ value .revenueYoy, low ≤ x

theorem inBounds_sound {value minimum maximum : Option K}
    (within : inBounds value minimum maximum = true) :
    (∀ low ∈ minimum, ∃ x ∈ value, low ≤ x) ∧ ∀ high ∈ maximum, ∃ x ∈ value, x ≤ high := by
  cases value with
  | none => cases minimum <;> cases maximum <;> simp_all [inBounds]
  | some x => cases minimum <;> cases maximum <;> simp_all [inBounds]

theorem atLeast_sound {value minimum : Option K} (within : atLeast value minimum = true) :
    ∀ low ∈ minimum, ∃ x ∈ value, low ≤ x := by
  cases value <;> cases minimum <;> simp_all [atLeast]

end

variable [FactorDecimals K] {upper : String → String} {day : CrossSection K} {symbol : String}

theorem withinBounds_of_passesFilters (passes : passesFilters upper day symbol = true) :
    WithinBounds day.config fun factor => find symbol (factorValues upper day factor) := by
  simp only [passesFilters, all_cons, all_nil, Bool.and_true, id, Bool.and_eq_true]
    at passes
  obtain ⟨marketCap, pb, turnoverRate, momentum, roe, margin, revenue⟩ := passes
  exact {
    minMarketCap := (inBounds_sound marketCap).1
    maxMarketCap := (inBounds_sound marketCap).2
    minPb := (inBounds_sound pb).1
    maxPb := (inBounds_sound pb).2
    minTurnoverRate := (inBounds_sound turnoverRate).1
    maxTurnoverRate := (inBounds_sound turnoverRate).2
    minMomentum := atLeast_sound momentum
    minRoe := atLeast_sound roe
    minGrossProfitMargin := atLeast_sound margin
    minRevenueYoy := atLeast_sound revenue }

theorem required_of_missingRequiredFactor (complete : missingRequiredFactor upper day = none)
    (member : symbol ∈ eligible upper day) {factor : FactorName}
    (required : requires day.config factor = true) :
    ∃ value, find symbol (factorValues upper day factor) = some value := by
  have listed : factor ∈ sortedOn FactorName.value (requiredFactors day.config) :=
    mem_sortedOn.mpr (mem_requiredFactors.mpr required)
  have reported := findSome?_eq_none_iff.mp complete factor listed
  rw [Option.map_eq_none_iff, head?_eq_none_iff] at reported
  cases known : find symbol (factorValues upper day factor) with
  | some value => exact ⟨value, rfl⟩
  | none =>
    have missing : symbol ∈ sortedSet ((eligible upper day).filter fun symbol =>
        (find symbol (factorValues upper day factor)).isNone) := by
      rw [mem_sortedSet, mem_filter, known]
      exact ⟨member, rfl⟩
    rw [reported] at missing
    cases missing

theorem industryCode_of_complete (complete : industryIncomplete upper day = false) {most : ℕ}
    (capped : day.config.maxPerIndustry = some most) (member : symbol ∈ eligible upper day) :
    ∃ code, industryCode day symbol = some code := by
  cases known : industryCode day symbol with
  | some code => exact ⟨code, rfl⟩
  | none =>
    have missing : industryIncomplete upper day = true := by
      simp only [industryIncomplete, capped, Option.isSome_some, Bool.or_true, Bool.true_and, any_eq_true]
      exact ⟨symbol, member, by rw [known]; rfl⟩
    exact absurd (missing.symm.trans complete) (by decide)

/-- One candidate stands before another in the ranking. -/
def Precedes (upper : String → String) (day : CrossSection K) (candidate other : String) : Prop :=
  match day.config.rankingScope with
  | .global => candidateKey upper day candidate < candidateKey upper day other
  | .industry => industryKey upper day candidate < industryKey upper day other

instance (upper : String → String) (day : CrossSection K) (candidate other : String) :
    Decidable (Precedes upper day candidate other) :=
  match scope : day.config.rankingScope with
  | .global => decidable_of_iff (candidateKey upper day candidate < candidateKey upper day other)
      (by simp [Precedes, scope])
  | .industry => decidable_of_iff (industryKey upper day candidate < industryKey upper day other)
      (by simp [Precedes, scope])

theorem candidateKey_injective : Function.Injective (candidateKey upper day) := by
  intro first second same
  exact congrArg (fun key => (ofLex key).2) same

theorem industryKey_injective : Function.Injective (industryKey upper day) := by
  intro first second same
  exact congrArg (fun key => (ofLex (ofLex key).2).2) same

theorem orderCandidates_perm : (orderCandidates upper day).Perm (filtered upper day) := by
  unfold orderCandidates
  split
  · exact sortedOn_perm
  · exact sortedOn_perm

theorem pair_sublist_orderCandidates {candidate other : String} (first : candidate ∈ filtered upper day)
    (second : other ∈ filtered upper day) (before : Precedes upper day candidate other) :
    List.Sublist [candidate, other] (orderCandidates upper day) := by
  unfold orderCandidates
  unfold Precedes at before
  split
  · next scope =>
    rw [scope] at before
    exact pair_sublist_sortedOn first second before
  · next scope =>
    rw [scope] at before
    exact pair_sublist_sortedOn first second before

theorem precedes_of_pair_sublist {candidate other : String}
    (order : List.Sublist [candidate, other] (orderCandidates upper day))
    (apart : candidate ≠ other) : Precedes upper day candidate other := by
  unfold orderCandidates at order
  unfold Precedes
  cases scope : day.config.rankingScope with
  | global =>
    rw [scope] at order
    have sorted := pairwise_sortedOn.sublist order
    have le := (pairwise_cons.mp sorted).1 other mem_cons_self
    exact lt_of_le_of_ne le (mt (fun same => candidateKey_injective same) apart)
  | industry =>
    rw [scope] at order
    have sorted := pairwise_sortedOn.sublist order
    have le := (pairwise_cons.mp sorted).1 other mem_cons_self
    exact lt_of_le_of_ne le (mt (fun same => industryKey_injective same) apart)

omit [FactorDecimals K] in
/-- The loop over the candidates is the greedy selection under the caps. -/
theorem applyLimits_eq_greedy (rest selected : List String) (counts : List (String × ℕ))
    (counted : ∀ code, (find code counts).getD 0 = groupCount (countedCode day) selected code) :
    applyLimits day rest selected counts =
      greedy (countedCode day) day.config.maxPerIndustry day.config.maxSymbols selected rest := by
  induction rest generalizing selected counts with
  | nil => rfl
  | cons candidate rest ih =>
    have full : day.config.maxPerIndustry.any
        (· ≤ (find (countedCode day candidate) counts).getD 0) = true ↔
          Full (countedCode day) day.config.maxPerIndustry selected
            (countedCode day candidate) := by
      rw [counted]
      cases day.config.maxPerIndustry <;> simp [Full]
    have added : ∀ code, (find code (assign (countedCode day candidate)
        ((find (countedCode day candidate) counts).getD 0 + 1) counts)).getD 0 =
          groupCount (countedCode day) (selected ++ [candidate]) code := by
      intro code
      rw [groupCount_append_singleton, ← counted code, find_assign]
      by_cases same : countedCode day candidate = code
      · subst same
        simp
      · simp [same]
    unfold applyLimits greedy
    simp only [full, length_append, length_singleton]
    split_ifs
    · exact ih selected counts counted
    · rfl
    · exact ih _ _ added

theorem selectedSymbols_eq_greedy : selectedSymbols upper day =
    greedy (countedCode day) day.config.maxPerIndustry day.config.maxSymbols []
      (orderCandidates upper day) :=
  applyLimits_eq_greedy _ _ _ fun _ => rfl

theorem selectedSymbols_sublist : (selectedSymbols upper day).Sublist (orderCandidates upper day) := by
  rw [selectedSymbols_eq_greedy]
  exact greedy_sublist

theorem mem_filtered_of_selected (chosen : symbol ∈ selectedSymbols upper day) :
    symbol ∈ filtered upper day :=
  orderCandidates_perm.mem_iff.mp (selectedSymbols_sublist.subset chosen)

theorem mem_eligible_of_filtered (member : symbol ∈ filtered upper day) :
    symbol ∈ eligible upper day := (mem_filter.mp member).1

/-- What a selection promises about the cross section it was made from. -/
structure SoundSelection (upper : String → String) (day : CrossSection K)
    (selected : List String) : Prop where
  eligible : ∀ symbol ∈ selected, symbol ∈ day.universeSymbols ∧ ∃ record,
    day.record symbol = some record ∧
      isEligible upper record day.config day.businessDate (day.bars symbol) = true
  required : ∀ symbol ∈ selected, ∀ factor ∈ requiredFactors day.config,
    ∃ value, find symbol (factorValues upper day factor) = some value
  bounds : ∀ symbol ∈ selected,
    WithinBounds day.config fun factor => find symbol (factorValues upper day factor)
  few : selected.length ≤ day.config.maxSymbols
  perIndustry : ∀ most ∈ day.config.maxPerIndustry, ∀ code,
    (selected.countP fun symbol => industryCode day symbol = some code) ≤ most
  /-- A candidate is passed over for a later one only where its industry was already full. -/
  greedy : ∀ candidate ∈ filtered upper day, candidate ∉ selected →
    ∀ symbol ∈ selected, Precedes upper day candidate symbol →
      ∃ most ∈ day.config.maxPerIndustry, most ≤ selected.countP fun earlier =>
        Precedes upper day earlier candidate ∧
          industryCode day earlier = industryCode day candidate

section

variable (known : day.universeSymbols.Nodup)
include known

theorem nodup_orderCandidates : (orderCandidates upper day).Nodup :=
  orderCandidates_perm.nodup_iff.mpr ((known.filter _).filter _)

/-- What the loop leaves behind it: the members of a full industry that stand before. -/
theorem selectedSymbols_greedy (complete : industryIncomplete upper day = false) {candidate : String}
    (member : candidate ∈ filtered upper day) (left : candidate ∉ selectedSymbols upper day)
    (chosen : symbol ∈ selectedSymbols upper day) (before : Precedes upper day candidate symbol) :
    ∃ most ∈ day.config.maxPerIndustry, most ≤ (selectedSymbols upper day).countP fun earlier =>
      Precedes upper day earlier candidate ∧ industryCode day earlier = industryCode day candidate := by
  have order := pair_sublist_orderCandidates member (mem_filtered_of_selected chosen) before
  rw [selectedSymbols_eq_greedy] at left chosen
  obtain ⟨earlier, front, stand, most, capped, reached⟩ := full_of_passed_over order
    (nodup_orderCandidates known) (fun _ _ => not_mem_nil) chosen left
  rw [← selectedSymbols_eq_greedy] at front left
  refine ⟨most, capped, reached.trans ?_⟩
  have codes : ∀ other ∈ filtered upper day, ∃ code, industryCode day other = some code :=
    fun other inside => industryCode_of_complete complete capped (mem_eligible_of_filtered inside)
  calc groupCount (countedCode day) earlier (countedCode day candidate)
      ≤ earlier.countP fun other => decide (Precedes upper day other candidate ∧
          industryCode day other = industryCode day candidate) := by
        refine countP_mono_left fun other inside same => ?_
        have taken := front.subset inside
        have pair := (stand other inside).resolve_left not_mem_nil
        have apart : other ≠ candidate := fun equal => left (equal ▸ taken)
        obtain ⟨code, coded⟩ := codes candidate member
        obtain ⟨group, grouped⟩ := codes other (mem_filtered_of_selected taken)
        simp only [countedCode, coded, grouped, Option.getD_some, decide_eq_true_eq] at same
        simp only [decide_eq_true_eq, coded, grouped, same, and_true]
        exact precedes_of_pair_sublist pair apart
    _ ≤ _ := front.sublist.countP_le

theorem selectedSymbols_sound (required : missingRequiredFactor upper day = none)
    (complete : industryIncomplete upper day = false) :
    SoundSelection upper day (selectedSymbols upper day) where
  eligible := by
    intro symbol chosen
    have member := mem_eligible_of_filtered (mem_filtered_of_selected chosen)
    obtain ⟨inside, passes⟩ := mem_filter.mp member
    obtain ⟨record, found, passes⟩ := (Option.any_eq_true _ _).mp passes
    exact ⟨inside, record, found, passes⟩
  required := by
    intro symbol chosen factor listed
    have member := mem_eligible_of_filtered (mem_filtered_of_selected chosen)
    exact required_of_missingRequiredFactor required member (mem_requiredFactors.mp listed)
  bounds := by
    intro symbol chosen
    exact withinBounds_of_passesFilters (mem_filter.mp (mem_filtered_of_selected chosen)).2
  few := by
    rw [selectedSymbols_eq_greedy]
    exact length_greedy_le day.config.maxSymbols_pos
  perIndustry := by
    intro most capped code
    have within : groupCount (countedCode day) (greedy (countedCode day) day.config.maxPerIndustry
        day.config.maxSymbols [] (orderCandidates upper day)) code ≤ most :=
      groupCount_greedy_le capped (fun _ => Nat.zero_le _) code
    rw [← selectedSymbols_eq_greedy] at within
    refine le_trans (countP_mono_left fun symbol _ same => ?_) within
    simp only [decide_eq_true_eq] at same ⊢
    simp [countedCode, same]
  greedy := by
    intro candidate member left symbol chosen before
    exact selectedSymbols_greedy known complete member left chosen before

end

variable {config : FactorSelectionConfig K} {universeSymbols : List String} {businessDate : Date}
  {decisionAt : DateTime} {priceHistory : List (String × List (Bar K))}
  {batch : FactorInputBatch K} {published : Publication K}

theorem sound_of_judge (known : universeSymbols.Nodup)
    (judged : judge upper config universeSymbols businessDate decisionAt priceHistory batch =
      .ok published) : SoundSelection upper (crossSectionOf config universeSymbols businessDate decisionAt
      priceHistory batch.records) published.selected := by
  obtain ⟨_, -, judged⟩ := bind_eq_ok.mp judged
  obtain ⟨_, -, judged⟩ := bind_eq_ok.mp judged
  obtain ⟨_, -, judged⟩ := bind_eq_ok.mp judged
  obtain ⟨_, -, judged⟩ := bind_eq_ok.mp judged
  obtain ⟨_, -, judged⟩ := bind_eq_ok.mp judged
  obtain ⟨_, required, judged⟩ := bind_eq_ok.mp judged
  obtain ⟨_, complete, judged⟩ := bind_eq_ok.mp judged
  cases judged
  refine selectedSymbols_sound known (noIssue_eq_ok.mp required) ?_
  simpa using demand_eq_ok.mp complete

/-- The same batch with its records in another order. -/
structure Shuffled (batch other : FactorInputBatch K) : Prop where
  records : batch.records.Perm other.records
  source : other.source = batch.source
  datasetVersions : other.datasetVersions = batch.datasetVersions
  issues : other.issues = batch.issues

omit [FactorDecimals K] in
theorem crossSectionOf_shuffled {records others : List (FactorInputRecord K)}
    {otherHistory : List (String × List (Bar K))}
    (single : (records.map (·.symbol)).Nodup) (shuffled : records.Perm others)
    (keyed : (priceHistory.map (·.1)).Nodup) (reordered : priceHistory.Perm otherHistory) :
    crossSectionOf config universeSymbols businessDate decisionAt otherHistory others =
      crossSectionOf config universeSymbols businessDate decisionAt priceHistory records := by
  have recordsSame : (fun symbol => find symbol (recordsBySymbol others)) =
      fun symbol => find symbol (recordsBySymbol records) :=
    funext fun symbol => find_recordsBySymbol_perm single shuffled symbol
  have barsSame : (fun symbol => (find symbol otherHistory).getD []) =
      fun symbol => (find symbol priceHistory).getD [] :=
    funext fun symbol => by rw [find_perm keyed reordered]
  unfold crossSectionOf
  rw [recordsSame, barsSame]

theorem judge_shuffled {other : FactorInputBatch K} {otherHistory : List (String × List (Bar K))}
    (single : (batch.records.map (·.symbol)).Nodup) (shuffled : Shuffled batch other)
    (keyed : (priceHistory.map (·.1)).Nodup) (reordered : priceHistory.Perm otherHistory) :
    judge upper config universeSymbols businessDate decisionAt otherHistory other =
      judge upper config universeSymbols businessDate decisionAt priceHistory batch := by
  have entries := recordsBySymbol_perm single shuffled.records
  have keys := entries.map Prod.fst
  have members : sameMembers ((recordsBySymbol other.records).map (·.1)) universeSymbols =
      sameMembers ((recordsBySymbol batch.records).map (·.1)) universeSymbols := by
    rw [Bool.eq_iff_iff]
    simp only [sameMembers, Bool.and_eq_true, all_eq_true, decide_eq_true_eq, keys.mem_iff]
  have symbols : sortedSet ((recordsBySymbol other.records).map (·.1)) =
      sortedSet ((recordsBySymbol batch.records).map (·.1)) :=
    sortedSet_congr fun _ => keys.symm.mem_iff
  have unprofiled : ((recordsBySymbol other.records).any fun row => row.2.profile.isNone) =
      (recordsBySymbol batch.records).any fun row => row.2.profile.isNone :=
    entries.symm.any_eq
  unfold judge
  rw [members, symbols, unprofiled, shuffled.source, shuffled.issues,
    crossSectionOf_shuffled single shuffled.records keyed reordered]

section

variable {strip : String → String} {sha256 : List Char → String}
  {reader : FactorInputRequest → FactorInputBatch K} {writer : Option (FactorSnapshot K → ℤ)}
  {staticUniverse : List String} {effectiveDate : Date} {snapshot : FactorSnapshot K}

theorem judge_of_select
    (chosen : select strip upper sha256 reader writer config staticUniverse businessDate decisionAt
      effectiveDate priceHistory = .ok snapshot) (released : snapshot.status = .published) :
    snapshot.staticUniverse = normalized strip upper staticUniverse ∧ ∃ published,
      judge upper config (normalized strip upper staticUniverse) businessDate decisionAt
        priceHistory (reader (requestOf strip upper config staticUniverse businessDate decisionAt)) =
          .ok published ∧ snapshot.selectedSymbols = published.selected := by
  obtain ⟨_, -, chosen⟩ := bind_eq_ok.mp chosen
  obtain ⟨_, -, chosen⟩ := bind_eq_ok.mp chosen
  obtain ⟨_, -, chosen⟩ := bind_eq_ok.mp chosen
  cases chosen
  refine ⟨rfl, ?_⟩
  cases judged : judge upper config (normalized strip upper staticUniverse) businessDate decisionAt
      priceHistory (reader (requestOf strip upper config staticUniverse businessDate decisionAt)) with
  | ok published =>
    refine ⟨published, rfl, ?_⟩
    simp only [persist, snapshotOf]
    rfl
  | error reason =>
    simp only [persist, snapshotOf, judged] at released
    cases released

/-- A published selection is sound for the cross section it was made from, and any order of the
universe, the records and the prices gives the same symbols and the same checksum. -/
theorem select_sound
    (chosen : select strip upper sha256 reader writer config staticUniverse businessDate decisionAt
      effectiveDate priceHistory = .ok snapshot) (released : snapshot.status = .published)
    (single : ((reader (requestOf strip upper config staticUniverse businessDate
      decisionAt)).records.map (·.symbol)).Nodup) (keyed : (priceHistory.map (·.1)).Nodup) :
    (snapshot.staticUniverse = normalized strip upper staticUniverse ∧
      SoundSelection upper (crossSectionOf config snapshot.staticUniverse businessDate decisionAt
        priceHistory
          (reader (requestOf strip upper config staticUniverse businessDate decisionAt)).records)
        snapshot.selectedSymbols ∧
      ∀ symbol record, (crossSectionOf config snapshot.staticUniverse businessDate decisionAt
          priceHistory (reader (requestOf strip upper config staticUniverse businessDate
            decisionAt)).records).record symbol = some record →
        record ∈ (reader (requestOf strip upper config staticUniverse businessDate
          decisionAt)).records ∧ record.symbol = symbol) ∧ ∀ otherReader otherUniverse otherHistory,
      (∀ request, Shuffled (reader request) (otherReader request)) →
      staticUniverse.Perm otherUniverse → priceHistory.Perm otherHistory →
      ∃ other, select strip upper sha256 otherReader writer config otherUniverse businessDate
          decisionAt effectiveDate otherHistory = .ok other ∧
        other.selectedSymbols = snapshot.selectedSymbols ∧ other.checksum = snapshot.checksum := by
  constructor
  · obtain ⟨listed, published, judged, same⟩ := judge_of_select chosen released
    refine ⟨listed, ?_, fun symbol record found => mem_of_recordsBySymbol found⟩
    rw [same, listed]
    exact sound_of_judge (nodup_sortedSet _) judged
  · intro otherReader otherUniverse otherHistory shuffled universes histories
    refine ⟨snapshot, ?_, rfl, rfl⟩
    have requests : requestOf strip upper config otherUniverse businessDate decisionAt =
        requestOf strip upper config staticUniverse businessDate decisionAt := by
      rw [requestOf, requestOf, normalized_perm universes]
    have batches := shuffled (requestOf strip upper config staticUniverse businessDate decisionAt)
    rw [← chosen]
    unfold select
    dsimp only
    rw [normalized_perm universes, requests, batches.datasetVersions,
      judge_shuffled single batches keyed histories]

end

/-- Rationals as decimals; a root is cut after fourteen digits. -/
scoped instance rationalFactorDecimals : FactorDecimals ℚ where
  square x := x * x
  sqrt x := (Nat.sqrt ⌊x * 10 ^ 28⌋₊ : ℚ) / 10 ^ 14
  str x := if x.den = 1 then toString x.num else s!"{x.num}/{x.den}"
  ofFloat value := value.value?.getD 0

theorem tradeYear_bound : 1 ≤ 2024 ∧ 2024 ≤ 9999 := by decide

theorem tradeMonth_bound : 1 ≤ 1 ∧ 1 ≤ 12 := by decide

theorem tradeDay_bound : 1 ≤ 2 ∧ 2 ≤ daysInMonth 2024 1 := by decide

theorem nextDay_bound : 1 ≤ 3 ∧ 3 ≤ daysInMonth 2024 1 := by decide

def tradeDay : Date := ⟨2024, 1, 2, tradeYear_bound, tradeMonth_bound, tradeDay_bound⟩

def nextDay : Date := ⟨2024, 1, 3, tradeYear_bound, tradeMonth_bound, nextDay_bound⟩

theorem utc_unsigned : false = true → Clock.zero.hour ≠ 0 ∨ Clock.zero.minute ≠ 0 ∨
    Clock.zero.second ≠ 0 ∨ Clock.zero.microsecond ≠ 0 := by
  simp

def afterClose : DateTime := ⟨tradeDay, Clock.zero, ⟨false, Clock.zero, utc_unsigned⟩⟩

def valued (symbol : String) (marketCap : ℚ) : FactorInputRecord ℚ where
  symbol := symbol
  profile := none
  daily := some {
    tradeDate := tradeDay
    turnoverRate := none
    pb := none
    totalMarketCap := some marketCap
    source := "tushare"
    availableAt := afterClose }
  financial := none
  industry := none

def twoBatch : FactorInputBatch ℚ where
  records := [valued "000002" 5, valued "000001" 7]
  source := "tushare"
  datasetVersions := []

def largestOne : FactorSelectionConfig ℚ where
  enabled := true
  inputsMode := .bars
  excludeSuspended := false
  maxSymbols := 1

def largestOfTwo : Except String (FactorSnapshot ℚ) :=
  select id id (fun _ => "") (fun _ => twoBatch) none largestOne ["000001", "000002"] tradeDay
    afterClose nextDay []

/-- The larger of two candidates is published. -/
theorem select_sound_two : ∃ snapshot, largestOfTwo = .ok snapshot ∧
    snapshot.selectedSymbols = ["000001"] ∧
    SoundSelection id (crossSectionOf largestOne snapshot.staticUniverse tradeDay afterClose []
      twoBatch.records) snapshot.selectedSymbols := by
  have judged : largestOfTwo.toOption.map (fun snapshot =>
      (snapshot.status, snapshot.selectedSymbols)) = some (.published, ["000001"]) := by
    decide +kernel
  cases chosen : largestOfTwo with
  | error reason =>
    rw [chosen] at judged
    cases judged
  | ok snapshot =>
    rw [chosen] at judged
    obtain ⟨released, symbols⟩ := Prod.mk.inj (Option.some.inj judged)
    exact ⟨snapshot, rfl, symbols, (select_sound chosen released (by decide) nodup_nil).1.2.1⟩

/-- The selection of more symbols goes on after that of fewer. -/
theorem selectedSymbols_prefix {more : ℕ} (le : day.config.maxSymbols ≤ more) : selectedSymbols upper day <+:
    selectedSymbols upper { day with
      config := { day.config with maxSymbols := more, maxSymbols_pos := day.config.maxSymbols_pos.trans_le le } } := by
  rw [selectedSymbols_eq_greedy, selectedSymbols_eq_greedy]
  exact greedy_prefix le _ _

theorem selectedSymbols_prefix_two :
    selectedSymbols id (crossSectionOf largestOne ["000001", "000002"] tradeDay afterClose [] twoBatch.records) <+:
      selectedSymbols id (crossSectionOf { largestOne with maxSymbols := 2, maxSymbols_pos := two_pos }
        ["000001", "000002"] tradeDay afterClose [] twoBatch.records) :=
  selectedSymbols_prefix (show largestOne.maxSymbols ≤ 2 by decide)

end FinDashboard.Selection
