import FinDashboard.Tushare.DateRanges
import Mathlib.Algebra.Order.Field.Rat

/-!
# Daily bars of the remote source

`_build_bars` turns the rows of one fetch into bars. Forward adjustment scales every price by the
factor of its day over the last factor of the fetched rows.
-/

namespace FinDashboard.Tushare

open List

structure Bar where
  date : ℤ
  «open» : ℚ
  high : ℚ
  low : ℚ
  close : ℚ
  volume : ℚ
  amount : ℚ
  source : String
deriving DecidableEq, Repr

/-- A row of a daily endpoint; a field that is not a finite number is missing. -/
structure DailyRow where
  «open» : Option ℚ
  high : Option ℚ
  low : Option ℚ
  close : Option ℚ
  vol : Option ℚ
  amount : Option ℚ
deriving DecidableEq, Repr

inductive Adjust
  | qfq
  | hqfq
  | none
deriving DecidableEq, Repr

/-- What `symbol.code` says of the symbol. -/
inductive SymbolKind
  | stock
  | convertible
  | index
  | futures
  | etf
deriving DecidableEq, Repr

inductive ProviderError
  | etfUnsupported
  | startAfterEnd
  | duplicateDate (date : ℤ)
  | missingFactor (date : ℤ)
  | invalidNumber (field : String)
  | invalidPrice (date : ℤ)
deriving DecidableEq, Repr

/-- How the rows of an endpoint become bars. -/
structure Endpoint where
  adjust : Adjust
  volumeMultiplier : ℚ
  amountMultiplier : ℚ
  lenientOhlc : Bool
deriving DecidableEq, Repr

def decimal (field : String) (value : Option ℚ) : Except ProviderError ℚ :=
  match value with
  | some number => .ok number
  | none => .error (.invalidNumber field)

def priceMultiplier (adjust : Adjust) (factor : Option ℚ) (referenceFactor : ℚ) (date : ℤ) :
    Except ProviderError ℚ :=
  match adjust, factor with
  | .none, _ => .ok 1
  | .qfq, some factor => .ok (factor / referenceFactor)
  | .hqfq, some factor => .ok factor
  | _, none => .error (.missingFactor date)

/-- The open, high and low of a row; a lenient endpoint skips a row that lacks one of them. -/
def rowOhl (lenientOhlc : Bool) (row : DailyRow) : Except ProviderError (Option (ℚ × ℚ × ℚ)) :=
  match row.open, row.high, row.low with
  | some o, some h, some l => .ok (some (o, h, l))
  | o, h, l =>
    if lenientOhlc then .ok none
    else do
      let o ← decimal "open" o
      let h ← decimal "high" h
      let l ← decimal "low" l
      return some (o, h, l)

/-- One turn of the loop of `_build_bars`. -/
def rowBar (endpoint : Endpoint) (factor : Option ℚ) (referenceFactor : ℚ) (date : ℤ)
    (row : DailyRow) : Except ProviderError (Option Bar) := do
  let multiplier ← priceMultiplier endpoint.adjust factor referenceFactor date
  let ohl ← rowOhl endpoint.lenientOhlc row
  let close ← decimal "close" row.close
  match ohl with
  | none => return none
  | some (o, h, l) =>
    if 0 < o * multiplier ∧ 0 < h * multiplier ∧ 0 < l * multiplier ∧ 0 < close * multiplier then
      let vol ← decimal "vol" row.vol
      let amount ← decimal "amount" row.amount
      return some {
        date := date
        «open» := o * multiplier
        high := h * multiplier
        low := l * multiplier
        close := close * multiplier
        volume := vol * endpoint.volumeMultiplier
        amount := amount * endpoint.amountMultiplier
        source := "tushare" }
    else throw (.invalidPrice date)

/-- The factor rows as a dictionary: a later row of a date replaces an earlier one. -/
def factorOf (factorRows : List (ℤ × ℚ)) (date : ℤ) : Option ℚ :=
  (factorRows.reverse.find? fun row => row.1 = date).map (·.2)

/-- The factor of the last date that has one. -/
def referenceFactor (factorRows : List (ℤ × ℚ)) : ℚ :=
  (((factorRows.map (·.1)).max?).bind (factorOf factorRows)).getD 1

def buildRows (endpoint : Endpoint) (factorRows : List (ℤ × ℚ)) (seen : List ℤ) :
    List (ℤ × DailyRow) → Except ProviderError (List Bar)
  | [] => .ok []
  | (date, row) :: rest =>
    if date ∈ seen then .error (.duplicateDate date)
    else do
      let bar ← rowBar endpoint (factorOf factorRows date) (referenceFactor factorRows) date row
      let bars ← buildRows endpoint factorRows (date :: seen) rest
      return bar.toList ++ bars

def sortBars (bars : List Bar) : List Bar := bars.insertionSort fun a b => a.date ≤ b.date

def buildBars (endpoint : Endpoint) (dailyRows : List (ℤ × DailyRow))
    (factorRows : List (ℤ × ℚ)) : Except ProviderError (List Bar) :=
  (buildRows endpoint factorRows [] dailyRows).map sortBars

/-- The rows the remote source holds for a symbol. -/
structure History where
  daily : ℤ → Option DailyRow
  adjFactor : ℤ → Option ℚ

/-- The dates of a range, in order. -/
def daysOf (range : DateRange) : List ℤ :=
  (List.range (range.2 - range.1 + 1).toNat).map fun n : ℕ => range.1 + n

def History.dailyRows (history : History) (range : DateRange) : List (ℤ × DailyRow) :=
  (daysOf range).filterMap fun date => (history.daily date).map fun row => (date, row)

def History.factorRows (history : History) (range : DateRange) : List (ℤ × ℚ) :=
  (daysOf range).filterMap fun date => (history.adjFactor date).map fun factor => (date, factor)

/-- Convertibles, indices and futures have no adjustment factors. -/
def endpointOf (kind : SymbolKind) (adjust : Adjust) : Endpoint :=
  match kind with
  | .convertible =>
    { adjust := .none, volumeMultiplier := 10, amountMultiplier := 1000, lenientOhlc := false }
  | .index =>
    { adjust := .none, volumeMultiplier := 100, amountMultiplier := 1000, lenientOhlc := true }
  | .futures =>
    { adjust := .none, volumeMultiplier := 1, amountMultiplier := 10000, lenientOhlc := false }
  | .stock | .etf =>
    { adjust := adjust, volumeMultiplier := 100, amountMultiplier := 1000, lenientOhlc := false }

/-- The date ranges `_fetch_from_akshare` sends to the remote source. -/
def requests (kind : SymbolKind) (range : DateRange) : List DateRange :=
  if range.2 < range.1 ∨ kind = .etf then [] else chunks range

/-- `_fetch_from_akshare`. -/
def fetchRange (history : History) (kind : SymbolKind) (adjust : Adjust) (range : DateRange) :
    Except ProviderError (List Bar) :=
  if range.2 < range.1 then .error .startAfterEnd
  else if kind = .etf then .error .etfUnsupported
  else
    buildBars (endpointOf kind adjust) ((requests kind range).flatMap history.dailyRows)
      (if (endpointOf kind adjust).adjust = .none then []
        else (requests kind range).flatMap history.factorRows)

/-- The remote source serves the symbol: factors are positive and no row is rejected. -/
structure History.Serves (history : History) (kind : SymbolKind) (adjust : Adjust) : Prop where
  served : kind ≠ .etf
  positive : ∀ date factor, history.adjFactor date = some factor → 0 < factor
  accepted : ∀ date row, history.daily date = some row → ∀ reference, 0 < reference →
    ∃ bar, rowBar (endpointOf kind adjust) (history.adjFactor date) reference date row = .ok bar

/-- The factor the prices of a fetched range are scaled to. -/
def History.reference (history : History) (kind : SymbolKind) (adjust : Adjust) (range : DateRange) : ℚ :=
  referenceFactor (if (endpointOf kind adjust).adjust = .none then [] else history.factorRows range)

def History.hasBar (history : History) (kind : SymbolKind) (date : ℤ) : Bool :=
  match history.daily date with
  | some row => !(kind = .index) || (row.open.isSome && row.high.isSome && row.low.isSome)
  | none => false

variable {history : History} {kind : SymbolKind} {adjust : Adjust} {range : DateRange} {date : ℤ}

@[simp] theorem mem_daysOf : date ∈ daysOf range ↔ range.1 ≤ date ∧ date ≤ range.2 := by
  simp only [daysOf, mem_map, mem_range]
  constructor
  · rintro ⟨n, bound, rfl⟩
    omega
  · rintro ⟨from', upTo⟩
    exact ⟨(date - range.1).toNat, by omega, by omega⟩

theorem nodup_daysOf : (daysOf range).Nodup := by
  apply List.Nodup.map _ List.nodup_range
  intro a b same
  simpa using same

theorem daysOf_append {first middle last : ℤ} (before : first ≤ middle + 1) (after : middle ≤ last) :
    daysOf (first, middle) ++ daysOf (middle + 1, last) = daysOf (first, last) := by
  have lengths : (last - first + 1).toNat =
      (middle - first + 1).toNat + (last - (middle + 1) + 1).toNat := by omega
  simp only [daysOf]
  rw [lengths, range_add, map_append, map_map]
  congr 1
  apply map_congr_left
  intro n _
  simp only [Function.comp]
  omega

/-- The chunks of a range hold its dates in order. -/
theorem days_chunksFrom {fuel : ℕ} {cursor last : ℤ} (enough : last - cursor + 1 ≤ fuel) :
    (chunksFrom fuel cursor last).flatMap daysOf = daysOf (cursor, last) := by
  have empty : ∀ cursor, last < cursor → daysOf (cursor, last) = [] := by
    intro cursor past
    apply eq_nil_iff_forall_not_mem.mpr
    intro date member
    have bounds := mem_daysOf.mp member
    simp only at bounds
    omega
  induction fuel generalizing cursor with
  | zero =>
    rw [empty cursor (by omega)]
    rfl
  | succ fuel ih =>
    unfold chunksFrom
    split
    · have long : (1 : ℤ) ≤ maxChunkDays := by decide
      push_cast at enough
      rw [flatMap_cons, ih (by omega), daysOf_append (by omega) (by omega)]
    · rw [empty cursor (by omega)]
      rfl

theorem days_chunks : (chunks range).flatMap daysOf = daysOf range :=
  days_chunksFrom (by omega)

theorem dailyRows_chunks : (chunks range).flatMap history.dailyRows = history.dailyRows range := by
  unfold History.dailyRows
  rw [← days_chunks, filterMap_flatMap]

theorem factorRows_chunks : (chunks range).flatMap history.factorRows = history.factorRows range := by
  unfold History.factorRows
  rw [← days_chunks, filterMap_flatMap]

section Rows

variable {endpoint : Endpoint} {factor : Option ℚ} {reference : ℚ} {row : DailyRow} {bar : Bar}

/-- What a row's bar holds. -/
structure RowBar (endpoint : Endpoint) (factor : Option ℚ) (reference : ℚ) (date : ℤ)
    (row : DailyRow) (bar : Bar) : Prop where
  date_eq : bar.date = date
  source_eq : bar.source = "tushare"
  close_pos : 0 < bar.close
  close_eq : ∃ close multiplier, row.close = some close ∧
    priceMultiplier endpoint.adjust factor reference date = .ok multiplier ∧
      bar.close = close * multiplier

theorem decimal_ok {field : String} {value : Option ℚ} {number : ℚ}
    (parsed : decimal field value = .ok number) : value = some number := by
  cases value with
  | none => cases parsed
  | some n => exact congrArg some (Except.ok.inj parsed)

theorem rowOhl_isSome {lenientOhlc : Bool} {ohl : Option (ℚ × ℚ × ℚ)}
    (parsed : rowOhl lenientOhlc row = .ok ohl) : ohl.isSome =
      (!lenientOhlc || (row.open.isSome && row.high.isSome && row.low.isSome)) := by
  unfold rowOhl at parsed
  split at parsed
  · rename_i o h l opened high low
    cases parsed
    simp [opened, high, low]
  · rename_i incomplete
    have missing : (row.open.isSome && row.high.isSome && row.low.isSome) = false := by
      cases opened : row.open <;> cases high : row.high <;> cases low : row.low <;> try rfl
      exact absurd low (incomplete _ _ _ opened high)
    cases lenientOhlc with
    | true =>
      cases parsed
      simp [missing]
    | false =>
      cases opened : row.open <;> cases high : row.high <;> cases low : row.low <;>
        simp [opened, high, low, decimal, bind, Except.bind] at parsed missing

/-- What the turn of the loop makes of an accepted row. -/
theorem rowBar_ok {result : Option Bar}
    (accepted : rowBar endpoint factor reference date row = .ok result) :
    result.isSome = (!endpoint.lenientOhlc || (row.open.isSome && row.high.isSome && row.low.isSome)) ∧
      ∀ bar ∈ result, RowBar endpoint factor reference date row bar := by
  unfold rowBar at accepted
  cases multiplied : priceMultiplier endpoint.adjust factor reference date with
  | error e => rw [multiplied] at accepted; cases accepted
  | ok multiplier =>
    rw [multiplied] at accepted
    cases parsed : rowOhl endpoint.lenientOhlc row with
    | error e => rw [parsed] at accepted; cases accepted
    | ok ohl =>
      have skipped := rowOhl_isSome parsed
      rw [parsed] at accepted
      cases closed : decimal "close" row.close with
      | error e => rw [closed] at accepted; cases accepted
      | ok close =>
        rw [closed] at accepted
        cases ohl with
        | none =>
          cases accepted
          exact ⟨skipped, fun bar none => absurd none (Option.not_mem_none bar)⟩
        | some prices =>
          obtain ⟨o, h, l⟩ := prices
          simp only [bind, Except.bind] at accepted
          split at accepted
          · rename_i positive
            cases volume : decimal "vol" row.vol with
            | error e => rw [volume] at accepted; cases accepted
            | ok vol =>
              cases turnover : decimal "amount" row.amount with
              | error e => rw [volume, turnover] at accepted; cases accepted
              | ok amount =>
                rw [volume, turnover] at accepted
                cases accepted
                refine ⟨skipped, ?_⟩
                intro bar same
                cases same
                exact ⟨rfl, rfl, positive.2.2.2, close, multiplier, decimal_ok closed, multiplied, rfl⟩
          · cases accepted

theorem rowBar_unadjusted (unadjusted : endpoint.adjust = .none) (factor' : Option ℚ) :
    rowBar endpoint factor reference date row = rowBar endpoint factor' reference date row := by
  unfold rowBar
  rw [unadjusted]
  rfl

theorem buildRows_accepted {factorRows : List (ℤ × ℚ)} {rows : List (ℤ × DailyRow)} {seen : List ℤ}
    (distinct : (rows.map (·.1)).Nodup) (fresh : ∀ r ∈ rows, r.1 ∉ seen) (accepted : ∀ r ∈ rows, ∃ result,
      rowBar endpoint (factorOf factorRows r.1) (referenceFactor factorRows) r.1 r.2 = .ok result) :
    ∃ bars, buildRows endpoint factorRows seen rows = .ok bars ∧ ∀ bar, bar ∈ bars ↔ ∃ r ∈ rows,
      rowBar endpoint (factorOf factorRows r.1) (referenceFactor factorRows) r.1 r.2 =
        .ok (some bar) := by
  induction rows generalizing seen with
  | nil => exact ⟨[], rfl, by simp⟩
  | cons first rest ih =>
    obtain ⟨date, row⟩ := first
    obtain ⟨unused, distinctRest⟩ := nodup_cons.mp distinct
    have freshRest : ∀ r ∈ rest, r.1 ∉ date :: seen := by
      intro r member repeated
      rcases mem_cons.mp repeated with same | old
      · exact unused (same ▸ mem_map.mpr ⟨r, member, rfl⟩)
      · exact fresh r (mem_cons_of_mem _ member) old
    obtain ⟨bars, built, holds⟩ := ih distinctRest freshRest fun r member =>
      accepted r (mem_cons_of_mem _ member)
    obtain ⟨result, made⟩ := accepted (date, row) mem_cons_self
    have unseen := fresh (date, row) mem_cons_self
    refine ⟨result.toList ++ bars, ?_, ?_⟩
    · simp only [buildRows, if_neg unseen, made, built]
      rfl
    · intro bar
      simp only [mem_append, Option.mem_toList, mem_cons, exists_eq_or_imp, made, holds]
      simp

end Rows

theorem mem_dailyRows {entry : ℤ × DailyRow} : entry ∈ history.dailyRows range ↔
    entry.1 ∈ daysOf range ∧ history.daily entry.1 = some entry.2 := by
  simp only [History.dailyRows, mem_filterMap, Option.map_eq_some_iff]
  constructor
  · rintro ⟨date, member, row, found, rfl⟩
    exact ⟨member, found⟩
  · rintro ⟨member, found⟩
    exact ⟨entry.1, member, entry.2, found, rfl⟩

theorem mem_factorRows {entry : ℤ × ℚ} : entry ∈ history.factorRows range ↔
    entry.1 ∈ daysOf range ∧ history.adjFactor entry.1 = some entry.2 := by
  simp only [History.factorRows, mem_filterMap, Option.map_eq_some_iff]
  constructor
  · rintro ⟨date, member, factor, found, rfl⟩
    exact ⟨member, found⟩
  · rintro ⟨member, found⟩
    exact ⟨entry.1, member, entry.2, found, rfl⟩

theorem nodup_dailyRows : ((history.dailyRows range).map (·.1)).Nodup := by
  have sublist : ((history.dailyRows range).map (·.1)).Sublist (daysOf range) := by
    unfold History.dailyRows
    induction daysOf range with
    | nil => exact List.Sublist.slnil
    | cons date rest ih =>
      cases found : history.daily date with
      | none =>
        rw [filterMap_cons_none (by simp [found])]
        exact ih.cons date
      | some row =>
        rw [filterMap_cons_some (b := (date, row)) (by simp [found]), map_cons]
        exact ih.cons_cons date
  exact sublist.nodup nodup_daysOf

theorem factorOf_factorRows (inside : date ∈ daysOf range) :
    factorOf (history.factorRows range) date = history.adjFactor date := by
  unfold factorOf
  cases found : (history.factorRows range).reverse.find? fun row => row.1 = date with
  | none =>
    cases given : history.adjFactor date with
    | none => rfl
    | some factor =>
      have member : (date, factor) ∈ (history.factorRows range).reverse :=
        mem_reverse.mpr (mem_factorRows.mpr ⟨inside, given⟩)
      have absent := find?_eq_none.mp found (date, factor) member
      simp at absent
  | some entry =>
    have same : entry.1 = date := by simpa using find?_some found
    have member := mem_factorRows.mp (mem_reverse.mp (mem_of_find?_eq_some found))
    rw [← same, member.2]
    rfl

theorem History.Serves.reference_pos (serves : history.Serves kind adjust) :
    0 < history.reference kind adjust range := by
  unfold History.reference
  split
  · exact one_pos
  · unfold referenceFactor
    cases latest : ((history.factorRows range).map (·.1)).max? with
    | none => exact one_pos
    | some date =>
      cases found : factorOf (history.factorRows range) date with
      | none => simp [found]
      | some factor =>
        obtain ⟨entry, member, same⟩ := Option.map_eq_some_iff.mp found
        have row := mem_factorRows.mp (mem_reverse.mp (mem_of_find?_eq_some member))
        simpa [found, ← same] using serves.positive _ _ row.2

/-- A source with complete, positive rows serves the symbol. -/
theorem serves_of_priced (served : kind ≠ .etf)
    (positive : ∀ date factor, history.adjFactor date = some factor → 0 < factor)
    (priced : ∀ date row, history.daily date = some row → ∃ o h l close vol amount : ℚ,
      row = ⟨some o, some h, some l, some close, some vol, some amount⟩ ∧
        0 < o ∧ 0 < h ∧ 0 < l ∧ 0 < close) (factored : ∀ date row, history.daily date = some row →
      ∃ factor, history.adjFactor date = some factor) : history.Serves kind adjust := by
  refine ⟨served, positive, ?_⟩
  intro date row found reference above
  obtain ⟨o, h, l, close, vol, amount, rfl, openPos, highPos, lowPos, closePos⟩ :=
    priced date row found
  obtain ⟨factor, given⟩ := factored date _ found
  have scale : ∃ multiplier, priceMultiplier (endpointOf kind adjust).adjust (some factor)
      reference date = .ok multiplier ∧ 0 < multiplier := by
    cases (endpointOf kind adjust).adjust with
    | qfq => exact ⟨_, rfl, div_pos (positive date factor given) above⟩
    | hqfq => exact ⟨_, rfl, positive date factor given⟩
    | none => exact ⟨_, rfl, one_pos⟩
  obtain ⟨multiplier, scaled, multiplierPos⟩ := scale
  have prices := And.intro (mul_pos openPos multiplierPos) (And.intro (mul_pos highPos multiplierPos)
    (And.intro (mul_pos lowPos multiplierPos) (mul_pos closePos multiplierPos)))
  rw [given]
  simp only [rowBar, scaled, rowOhl, decimal, bind, Except.bind, if_pos prices]
  exact ⟨_, rfl⟩

theorem History.Serves.fetchRange (serves : history.Serves kind adjust) (valid : range.1 ≤ range.2) :
    ∃ bars, Tushare.fetchRange history kind adjust range = .ok bars ∧ ∀ bar, bar ∈ bars ↔
      (range.1 ≤ bar.date ∧ bar.date ≤ range.2) ∧ ∃ row, history.daily bar.date = some row ∧
        rowBar (endpointOf kind adjust) (history.adjFactor bar.date)
          (history.reference kind adjust range) bar.date row = .ok (some bar) := by
  have sent : requests kind range = chunks range := by
    simp [requests, serves.served, not_lt.mpr valid]
  let factorRows :=
    if (endpointOf kind adjust).adjust = .none then [] else history.factorRows range
  have sameBar : ∀ date row, date ∈ daysOf range →
      rowBar (endpointOf kind adjust) (factorOf factorRows date) (referenceFactor factorRows) date row =
        rowBar (endpointOf kind adjust) (history.adjFactor date)
          (history.reference kind adjust range) date row := by
    intro date row inside
    by_cases unadjusted : (endpointOf kind adjust).adjust = .none
    · exact rowBar_unadjusted unadjusted _
    · simp only [factorRows, if_neg unadjusted, factorOf_factorRows inside, History.reference]
  have fresh : ∀ r ∈ history.dailyRows range, r.1 ∉ ([] : List ℤ) := fun _ _ => not_mem_nil
  have accepted : ∀ r ∈ history.dailyRows range, ∃ result, rowBar (endpointOf kind adjust)
      (factorOf factorRows r.1) (referenceFactor factorRows) r.1 r.2 = .ok result := by
    intro r member
    obtain ⟨inside, found⟩ := mem_dailyRows.mp member
    rw [sameBar _ _ inside]
    exact serves.accepted r.1 r.2 found _ serves.reference_pos
  obtain ⟨bars, built, holds⟩ := buildRows_accepted nodup_dailyRows fresh accepted
  refine ⟨sortBars bars, ?_, ?_⟩
  · simp only [Tushare.fetchRange, if_neg (not_lt.mpr valid), if_neg serves.served, sent,
      dailyRows_chunks, factorRows_chunks, buildBars]
    rw [built]
    rfl
  · intro bar
    have sorted : bar ∈ sortBars bars ↔ bar ∈ bars := (perm_insertionSort _ _).mem_iff
    rw [sorted, holds]
    constructor
    · rintro ⟨r, member, made⟩
      obtain ⟨inside, found⟩ := mem_dailyRows.mp member
      have same := ((rowBar_ok made).2 bar rfl).date_eq
      rw [sameBar _ _ inside] at made
      rw [same]
      exact ⟨mem_daysOf.mp inside, r.2, found, made⟩
    · rintro ⟨inside, row, found, made⟩
      have member := mem_daysOf.mpr inside
      refine ⟨(bar.date, row), mem_dailyRows.mpr ⟨member, found⟩, ?_⟩
      rw [sameBar _ _ member]
      exact made

theorem History.Serves.hasBar_iff (serves : history.Serves kind adjust) {reference : ℚ}
    (positive : 0 < reference) : history.hasBar kind date = true ↔
      ∃ row, history.daily date = some row ∧ ∃ bar, rowBar (endpointOf kind adjust)
        (history.adjFactor date) reference date row = .ok (some bar) := by
  have lenient : (endpointOf kind adjust).lenientOhlc = decide (kind = .index) := by
    cases kind <;> rfl
  cases found : history.daily date with
  | none => simp [History.hasBar, found]
  | some row =>
    obtain ⟨result, made⟩ := serves.accepted date row found reference positive
    have isSome : result.isSome = history.hasBar kind date := by
      simp only [(rowBar_ok made).1, lenient, History.hasBar, found]
    rw [← isSome, Option.isSome_iff_exists]
    constructor
    · rintro ⟨bar, rfl⟩
      exact ⟨row, rfl, bar, made⟩
    · rintro ⟨row', same, bar, made'⟩
      cases same
      rw [made] at made'
      exact ⟨bar, Except.ok.inj made'⟩

end FinDashboard.Tushare
