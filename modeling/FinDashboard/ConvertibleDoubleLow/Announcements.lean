import FinDashboard.ConvertibleDoubleLow.Orders

/-!
# Announcements act from their publication

A rebalance reads the events published by the midnight that begins its day and the histories up to its
day. Two runs whose inputs agree that far make the same trades until then.
-/

namespace FinDashboard.ConvertibleDoubleLow

open Ledger List

variable {K : Type} {a b : BacktestInputs K} {T date : ℤ}

section Known

def published (T : ℤ) (events : List LifecycleEvent) : List LifecycleEvent :=
  events.filter fun event => event.availableAt ≤ midnight T

/-- Inputs that agree on the histories up to a day and on the events published by its midnight. -/
structure AgreeUpTo (T : ℤ) (a b : BacktestInputs K) : Prop where
  dates : a.dates.filter (fun date => date ≤ T) = b.dates.filter fun date => date ≤ T
  snapshots : ∀ date ≤ T, a.snapshots date = b.snapshots date
  nextOpens : ∀ date ≤ T, a.nextOpens date = b.nextOpens date
  nextVolumes : ∀ date ≤ T, a.nextVolumes date = b.nextVolumes date
  events : ∀ code, published T (a.events code) = published T (b.events code)

theorem midnight_mono {asOf : ℤ} (early : asOf ≤ T) : midnight asOf ≤ midnight T := by
  unfold midnight
  omega

theorem availableAt_le_of_countsOn {code : String} {event : LifecycleEvent}
    (counts : countsOn code date event = true) : event.availableAt ≤ midnight date := by
  unfold countsOn at counts
  split_ifs at counts with other late
  exact Int.not_lt.mp late

theorem filter_countsOn_published (early : date ≤ T) (code : String) (events : List LifecycleEvent) :
    (published T events).filter (countsOn code date) = events.filter (countsOn code date) := by
  rw [published, filter_filter]
  apply filter_congr
  intro event _
  cases counts : countsOn code date event with
  | false => rfl
  | true =>
    have published := (availableAt_le_of_countsOn counts).trans (midnight_mono early)
    rw [Bool.true_and]
    exact decide_eq_true published

theorem checkEventRisk_congr (early : date ≤ T) {first second : List LifecycleEvent}
    (same : published T first = published T second) (snapshot : ConvertibleSnapshot K) (days : ℤ) :
    checkEventRisk snapshot first date days = checkEventRisk snapshot second date days := by
  have active : first.filter (countsOn snapshot.code date) =
      second.filter (countsOn snapshot.code date) := by
    rw [← filter_countsOn_published early, same, filter_countsOn_published early]
  rw [checkEventRisk, checkEventRisk, active]

end Known

variable [Decimals K] {config : ConvertibleDoubleLowConfig K} {state : State K}

section Bars

theorem safeCandidates_congr (agree : AgreeUpTo T a b) (early : date ≤ T) :
    safeCandidates a config date = safeCandidates b config date := by
  have checks : ∀ snapshot : ConvertibleSnapshot K,
      checkEventRisk snapshot (a.events snapshot.code) date config.universeMinRemainingDays =
        checkEventRisk snapshot (b.events snapshot.code) date config.universeMinRemainingDays :=
    fun snapshot => checkEventRisk_congr early (agree.events snapshot.code) snapshot _
  simp only [safeCandidates, filterEventRisk, agree.snapshots date early, checks]

/-- A rebalance reads what is known on its day. -/
theorem doRebalance_congr (agree : AgreeUpTo T a b) (early : date ≤ T) (state : State K) :
    doRebalance a config date state = doRebalance b config date state := by
  have safe : safeCandidates a config date = safeCandidates b config date :=
    safeCandidates_congr agree early
  have entering : ∀ safe equity, enter a config date safe equity = enter b config date safe equity := by
    intro safe equity
    funext state sig
    simp only [enter, agree.nextOpens date early, agree.nextVolumes date early]
  simp only [doRebalance, safe, sellUnranked, entering, agree.snapshots date early,
    agree.nextOpens date early, agree.nextVolumes date early]

theorem rebalanceBar_congr (agree : AgreeUpTo T a b) (early : date ≤ T) (barIdx : ℕ)
    (state : State K) : rebalanceBar a config barIdx date state = rebalanceBar b config barIdx date state := by
  unfold rebalanceBar
  rw [doRebalance_congr agree early]

theorem bar_congr (agree : AgreeUpTo T a b) (early : date ≤ T) {barIdx : ℕ} {nextDate : ℤ}
    (known : nextDate ≤ T) (first : a.dates[barIdx + 1]? = some nextDate)
    (second : b.dates[barIdx + 1]? = some nextDate) (state : State K) :
    bar a config state (date, barIdx) = bar b config state (date, barIdx) := by
  unfold bar
  dsimp only
  rw [first, second, rebalanceBar_congr agree early]
  dsimp only
  rw [agree.snapshots nextDate known]

end Bars

section Records

/-- The trades and the rebalances recorded so far, as far as they are of a day or earlier. -/
def recordedUpTo (T : ℤ) (state : State K) : List (ConvertibleTrade K) × List ℤ :=
  (state.trades.filter fun trade => trade.date ≤ T, state.rebalanceDates.filter fun date => date ≤ T)

variable (inputs : BacktestInputs K)

theorem doRebalance_records (config : ConvertibleDoubleLowConfig K) (late : T < date) (state : State K) :
    recordedUpTo T (doRebalance inputs config date state) = recordedUpTo T state := by
  have dropped : ∀ (trades : List (ConvertibleTrade K)) (trade : ConvertibleTrade K),
      trade.date = date → (trades ++ [trade]).filter (fun trade => trade.date ≤ T) =
        trades.filter fun trade => trade.date ≤ T := by
    intro trades trade dated
    rw [filter_append, filter_cons_of_neg, filter_nil, append_nil]
    simp only [decide_eq_true_eq]
    omega
  apply doRebalance_invariant (P := fun s => recordedUpTo T s = recordedUpTo T state) rfl
  · intro s code reason s' same case
    cases case with
    | nothing => exact same
    | sold pos openPrice =>
      rw [← same]
      exact Prod.ext (dropped _ _ rfl) rfl
  · intro s code issuer targetValue s' same _ case
    cases case with
    | nothing => exact same
    | bought openPrice qty =>
      rw [← same]
      exact Prod.ext (dropped _ _ rfl) rfl

theorem rebalanceBar_records (config : ConvertibleDoubleLowConfig K)
    (late : T < date) (barIdx : ℕ) (state : State K) :
    recordedUpTo T (rebalanceBar inputs config barIdx date state) = recordedUpTo T state := by
  unfold rebalanceBar
  split_ifs
  · have dropped : (state.rebalanceDates ++ [date]).filter (fun date => date ≤ T) =
        state.rebalanceDates.filter fun date => date ≤ T := by
      rw [filter_append, filter_cons_of_neg, filter_nil, append_nil]
      simp only [decide_eq_true_eq]
      omega
    rw [doRebalance_records inputs config late]
    exact Prod.ext rfl dropped
  · rfl

theorem bar_records (config : ConvertibleDoubleLowConfig K) (state : State K) (entry : ℤ × ℕ) :
    recordedUpTo T (bar inputs config state entry) =
      recordedUpTo T (rebalanceBar inputs config entry.2 entry.1 state) := by
  unfold bar
  dsimp only
  split <;> rfl

theorem foldl_bar_records (config : ConvertibleDoubleLowConfig K)
    (bars : List (ℤ × ℕ)) (late : ∀ entry ∈ bars, T < entry.1) (state : State K) :
    recordedUpTo T (bars.foldl (bar inputs config) state) = recordedUpTo T state := by
  induction bars generalizing state with
  | nil => rfl
  | cons entry rest ih =>
    have here := late entry mem_cons_self
    have later := ih fun other member => late other (mem_cons_of_mem _ member)
    rw [foldl_cons, later, bar_records, rebalanceBar_records inputs config here]

theorem closeAllPositions_records (lastDate : ℤ) (opens : String → Option K) (state : State K) :
    recordedUpTo T (closeAllPositions lastDate opens state) = recordedUpTo T state := by
  apply foldlRecOn (motive := fun s => recordedUpTo T s = recordedUpTo T state) _ _ rfl
  intro s same code _
  cases closePosition_case lastDate opens s code with
  | nothing unchanged =>
    rw [unchanged]
    exact same
  | closed pos openPrice held opened cash positions trades commission curve rebalanced =>
    rw [recordedUpTo, trades, rebalanced]
    exact same

end Records

section Runs

/-- Dates in order are those up to a day and then the later ones. -/
theorem filter_le_append {dates : List ℤ} (sorted : dates.Pairwise (· < ·)) :
    dates.filter (fun date => date ≤ T) ++ dates.filter (fun date => T < date) = dates := by
  induction dates with
  | nil => rfl
  | cons first rest ih =>
    obtain ⟨least, sorted⟩ := pairwise_cons.mp sorted
    by_cases early : first ≤ T
    · rw [filter_cons_of_pos (by simpa using early),
        filter_cons_of_neg (by simpa using early), cons_append, ih sorted]
    · have none : rest.filter (fun date => date ≤ T) = [] := by
        apply filter_eq_nil_iff.mpr
        intro date member
        have later := least date member
        simp only [decide_eq_true_eq]
        omega
      have all := ih sorted
      rw [none, nil_append] at all
      rw [filter_cons_of_neg (by simpa using early),
        filter_cons_of_pos (by simpa using early), none, nil_append, all]

/-- The bars up to a day record the same with the inputs that agree up to it, the last of them too,
although its mark to market may read a later date. -/
theorem foldl_bar_congr (agree : AgreeUpTo T a b) (early : List ℤ) {laterA laterB : List ℤ}
    (first : a.dates = early ++ laterA) (second : b.dates = early ++ laterB)
    (upTo : ∀ date ∈ early, date ≤ T) (state : State K) :
    recordedUpTo T (early.zipIdx.foldl (bar a config) state) =
      recordedUpTo T (early.zipIdx.foldl (bar b config) state) := by
  rcases eq_nil_or_concat early with rfl | ⟨init, last, rfl⟩
  · rw [zipIdx_nil, foldl_nil, foldl_nil]
  rw [concat_eq_append] at first second upTo ⊢
  have known := upTo last (mem_append_right _ (mem_singleton_self _))
  have before : init.zipIdx.foldl (bar a config) state = init.zipIdx.foldl (bar b config) state := by
    apply foldl_ext
    intro s entry member
    obtain ⟨inside, here⟩ := mem_zipIdx' member
    have next : entry.2 + 1 < (init ++ [last]).length := by
      rw [length_append, length_singleton]
      omega
    have date : entry.1 ≤ T := by
      apply upTo
      rw [here]
      exact mem_append_left _ (getElem_mem inside)
    apply bar_congr agree date (upTo _ (getElem_mem next))
    · rw [first, getElem?_append_left next, getElem?_eq_getElem next]
    · rw [second, getElem?_append_left next, getElem?_eq_getElem next]
  rw [zipIdx_append, foldl_append, foldl_append, before, zipIdx_cons,
    zipIdx_nil, foldl_cons, foldl_nil, foldl_cons, foldl_nil, bar_records,
    bar_records]
  dsimp only
  rw [rebalanceBar_congr agree known]

theorem afterBars_records (agree : AgreeUpTo T a b) (config : ConvertibleDoubleLowConfig K) :
    recordedUpTo T (afterBars a config) = recordedUpTo T (afterBars b config) := by
  have parts : ∀ inputs : BacktestInputs K, recordedUpTo T (afterBars inputs config) =
      recordedUpTo T ((inputs.dates.filter fun date => date ≤ T).zipIdx.foldl (bar inputs config)
        (initialState config)) := by
    intro inputs
    have whole := filter_le_append (T := T) inputs.sorted
    have later : ∀ entry ∈ (inputs.dates.filter fun date => T < date).zipIdx
        (0 + (inputs.dates.filter fun date => date ≤ T).length), T < entry.1 := by
      intro entry member
      have date := fst_mem_of_mem_zipIdx member
      exact of_decide_eq_true (mem_filter.mp date).2
    unfold afterBars
    conv_lhs => rw [← whole]
    rw [zipIdx_append, foldl_append]
    exact foldl_bar_records inputs config _ later _
  rw [parts, parts, ← agree.dates]
  apply foldl_bar_congr agree _ (filter_le_append (T := T) a.sorted).symm
  · rw [agree.dates]
    exact (filter_le_append (T := T) b.sorted).symm
  · intro date member
    exact of_decide_eq_true (mem_filter.mp member).2

/-- Runs whose inputs agree up to a day, and on the events published by the midnight that begins it, record
the same trades and rebalances up to that day. -/
theorem same_records_of_agree (config : ConvertibleDoubleLowConfig K) (a b : BacktestInputs K) (T : ℤ)
    (first second : ConvertibleBacktestResult K × State K)
    (ranFirst : runBacktest a config = some first) (ranSecond : runBacktest b config = some second)
    (agree : AgreeUpTo T a b) : first.1.trades.filter (fun trade => trade.date ≤ T) =
        second.1.trades.filter (fun trade => trade.date ≤ T) ∧
      first.1.rebalanceDates.filter (fun date => date ≤ T) =
        second.1.rebalanceDates.filter fun date => date ≤ T := by
  have records : ∀ (inputs : BacktestInputs K) (result : ConvertibleBacktestResult K × State K),
      runBacktest inputs config = some result →
        (result.1.trades.filter (fun trade => trade.date ≤ T),
          result.1.rebalanceDates.filter fun date => date ≤ T) =
            recordedUpTo T (afterBars inputs config) := by
    intro inputs result ran
    unfold runBacktest at ran
    cases last : inputs.dates.getLast? with
    | none =>
      rw [last] at ran
      cases ran
    | some lastDate =>
      rw [last] at ran
      cases ran
      exact closeAllPositions_records lastDate (inputs.nextOpens lastDate) (afterBars inputs config)
  have same := afterBars_records agree config
  rw [← records a first ranFirst, ← records b second ranSecond] at same
  exact Prod.ext_iff.mp same

def sampleBond (code issuer : String) (close : ℚ) : ConvertibleSnapshot ℚ where
  instrument := { code, listDate := none, delistDate := none, status := .active }
  underlyingStockCode := issuer
  close := close
  conversionPremium := 1 / 10
  ytm := none
  daysToMaturity := none
  remainingSize := 100000000
  avgAmount20d := 10000000

/-- A market of one bond over two days, with the price and the events of the second to be given. -/
def twoDays (price : ℚ) (events : List LifecycleEvent) : BacktestInputs ℚ where
  dates := [0, 1]
  snapshots date := [sampleBond "B" "S" (if date ≤ 0 then 110 else price)]
  nextOpens date _ := some (if date ≤ 0 then 110 else price)
  nextVolumes _ _ := some 1000
  events _ := events
  sorted := by decide

/-- A redemption that is announced on the second day. -/
def redemption : LifecycleEvent :=
  { symbol := "B", eventType := .forcedRedemption, effectiveDate := 1, availableAt := midnight 1 }

theorem twoDays_agree : AgreeUpTo 0 (twoDays 111 []) (twoDays 112 [redemption]) where
  dates := rfl
  snapshots date early := by simp only [twoDays, if_pos early]
  nextOpens date early := by simp only [twoDays, if_pos early]
  nextVolumes _ _ := rfl
  events _ := rfl

/-- The first day buys the bond either way. -/
theorem same_records_of_agree_redemption :
    let closed := fun inputs : BacktestInputs ℚ =>
      closeAllPositions 1 (inputs.nextOpens 1) (afterBars inputs defaultConfig)
    (closed (twoDays 111 [])).trades.filter (fun trade => trade.date ≤ 0) =
        (closed (twoDays 112 [redemption])).trades.filter (fun trade => trade.date ≤ 0) ∧
      (closed (twoDays 111 [])).rebalanceDates.filter (fun date => date ≤ 0) =
        (closed (twoDays 112 [redemption])).rebalanceDates.filter fun date => date ≤ 0 :=
  same_records_of_agree defaultConfig (twoDays 111 []) (twoDays 112 [redemption]) 0
    (buildResult _, _) (buildResult _, _) rfl rfl twoDays_agree

example : (afterBars (twoDays 111 []) defaultConfig).trades.length = 1 := by decide +kernel

end Runs

end FinDashboard.ConvertibleDoubleLow
