import FinDashboard.Simulation.CashConservation
import FinDashboard.Simulation.FuturesFills

/-!
# Settlement telescopes

Whatever the prices of the daily settlements in between, a futures session that ends flat
has earned the difference between exit and entry prices on what it traded, less its
commissions, and holds no margin.
-/

namespace FinDashboard.Simulation

open Ledger

variable {st : State}

theorem FuturesBooks.kept :
    Kept id (fun _ target => target.instrumentType = .futures) (fun _ => True) FuturesBooks where
  close := fun _ _ _ reason hsound h hlisted hactive hends =>
    h.closeOrder hsound hlisted hactive hends reason
  fill := fun _ _ _ _ _ hsound h hlisted hactive hfits _ => h.applyFill hsound hlisted hactive hfits
  mark := fun event _ _ _ _ hsound h hmem _ hrule =>
    h.markedState hsound (event.low_pos.trans_le event.low_le_close) hmem hrule
  books := fun _ _ hsame h => h.of_same hsame
  place := by
    intro st decisionId now target placed hsound h hfutures hplaced
    obtain ⟨rule, -, hplacement⟩ := targetToOrder_placement hplaced
    exact h.placement hsound hfutures hplacement

theorem FuturesBooks.opened (h : Opened id st) : FuturesBooks st := by
  have hheld : Held (fun _ => true) (fun _ => true) st := Held.opened h
  cases h with
  | @mk initialCash account haccount validationRunId config signalTraces =>
    unfold createAccount at haccount
    split_ifs at haccount
    refine ⟨hheld, ?_, ?_, ?_⟩
    · intro position hmem
      cases hmem
    · rw [← Except.ok.inj haccount]
      rfl
    · rw [← Except.ok.inj haccount]
      simp [State.opened]

/-- The calls of a session that trades contracts. -/
def FuturesOnly (_ : State) : Action → Prop
  | .submitDecision decision _ => ∀ target ∈ decision.targets, target.instrumentType = .futures
  | _ => True

theorem FuturesBooks.reachable (h : Reachable id FuturesOnly st) : FuturesBooks st := by
  have hbooks : Sound st ∧ FuturesBooks st := by
    induction h with
    | opened hnew => exact ⟨Sound.opened hnew, FuturesBooks.opened hnew⟩
    | @call st action _ hallowed ih =>
      apply FuturesBooks.kept.step ih.1 ih.2
      · cases action with
        | submitDecision decision now => exact targetsMeet_of_forall hallowed
        | _ => trivial
      · exact fun _ => ih.2.recoverSession ih.1
  exact hbooks.2

/-- A quantity that one fill opened and another closed; both are given by their place. -/
structure MatchedTrade where
  entry : ℕ
  exit : ℕ
  quantity : ℚ
  deriving DecidableEq, Repr

def MatchedTrade.profit (fills : List Fill) (trade : MatchedTrade) : ℚ :=
  match fills[trade.entry]?, fills[trade.exit]? with
  | some entry, some exit =>
      (exit.price - entry.price) * contractMultiplier entry.symbol * trade.quantity *
        direction entry.positionSide
  | _, _ => 0

/-- The trade closes what an opening fill of the same contract opened. -/
def MatchedTrade.pairs (fills : List Fill) (trade : MatchedTrade) : Bool :=
  match fills[trade.entry]?, fills[trade.exit]? with
  | some entry, some exit =>
      entry.positionEffect = .open && exit.positionEffect = .close && exit.key = entry.key
  | _, _ => false

/-- Trades that use up the quantity of every fill, within one contract each. -/
structure Matching (fills : List Fill) (trades : List MatchedTrade) : Prop where
  paired : ∀ trade ∈ trades, trade.pairs fills = true
  entries : ∀ i (hi : i < fills.length), fills[i].positionEffect = .open →
    total MatchedTrade.quantity (trades.filter fun trade => trade.entry = i) = fills[i].quantity
  exits : ∀ i (hi : i < fills.length), fills[i].positionEffect = .close →
    total MatchedTrade.quantity (trades.filter fun trade => trade.exit = i) = fills[i].quantity

theorem matching_iff {fills : List Fill} {trades : List MatchedTrade} : Matching fills trades ↔
    (∀ trade ∈ trades, trade.pairs fills = true) ∧
    (∀ i (hi : i < fills.length), fills[i].positionEffect = .open →
      total MatchedTrade.quantity (trades.filter fun trade => trade.entry = i) = fills[i].quantity) ∧
    (∀ i (hi : i < fills.length), fills[i].positionEffect = .close →
      total MatchedTrade.quantity (trades.filter fun trade => trade.exit = i) = fills[i].quantity) :=
  ⟨fun h => ⟨h.paired, h.entries, h.exits⟩, fun h => ⟨h.1, h.2.1, h.2.2⟩⟩

instance (fills : List Fill) (trades : List MatchedTrade) : Decidable (Matching fills trades) :=
  decidable_of_iff _ matching_iff.symm

theorem pairs_fills {fills : List Fill} {trade : MatchedTrade} (h : trade.pairs fills = true) :
    ∃ entry exit, fills[trade.entry]? = some entry ∧ fills[trade.exit]? = some exit ∧
      entry.positionEffect = .open ∧ exit.positionEffect = .close ∧ exit.key = entry.key := by
  unfold MatchedTrade.pairs at h
  cases hentry : fills[trade.entry]? with
  | none =>
    rw [hentry] at h
    cases h
  | some entry =>
    cases hexit : fills[trade.exit]? with
    | none =>
      rw [hentry, hexit] at h
      cases h
    | some exit =>
      rw [hentry, hexit] at h
      simp only [Bool.and_eq_true, decide_eq_true_eq] at h
      exact ⟨entry, exit, rfl, rfl, h.1.1, h.1.2, h.2⟩

def Fill.unitValue (fill : Fill) : ℚ :=
  fill.price * contractMultiplier fill.symbol * direction fill.positionSide

section Matched

variable {fills : List Fill} {trades : List MatchedTrade}

theorem total_matched {place : MatchedTrade → ℕ} {effect : PositionEffect}
    (hplaced : ∀ trade ∈ trades, ∃ fill, fills[place trade]? = some fill ∧ fill.positionEffect = effect)
    (hfull : ∀ i (hi : i < fills.length), fills[i].positionEffect = effect →
      total MatchedTrade.quantity (trades.filter fun trade => place trade = i) = fills[i].quantity) :
    total (fun trade => (fills[place trade]?).elim 0 Fill.unitValue * trade.quantity) trades =
      total Fill.tradedValue (fills.filter fun fill => fill.positionEffect = effect) := by
  have hbound : ∀ trade ∈ trades, place trade < fills.length := by
    intro trade htrade
    obtain ⟨fill, hfill, -⟩ := hplaced trade htrade
    exact (List.getElem?_eq_some_iff.mp hfill).1
  rw [total_by_place (fun i => (fills[i]?).elim 0 Fill.unitValue) MatchedTrade.quantity hbound,
    total_filter, total_eq_sum_range]
  apply Finset.sum_congr rfl
  intro i hi
  have hlt := Finset.mem_range.mp hi
  have hfill := List.getElem?_eq_getElem hlt
  by_cases heffect : fills[i].positionEffect = effect
  · rw [hfull i hlt heffect, hfill]
    simp only [Option.elim_some, heffect, decide_true, if_true, Fill.unitValue, Fill.tradedValue]
    ring
  · -- a fill of the other side takes part in no trade on this side
    have hnone : trades.filter (fun trade => place trade = i) = [] := by
      apply List.filter_eq_nil_iff.mpr
      intro trade htrade hplace
      obtain ⟨found, hfound, hfoundEffect⟩ := hplaced trade htrade
      rw [of_decide_eq_true hplace, hfill] at hfound
      rw [← Option.some.inj hfound] at hfoundEffect
      exact heffect hfoundEffect
    rw [hnone, hfill]
    simp [heffect]

/-- The profit of the trades is what was sold dearer than it was bought. -/
theorem Matching.total_profit (h : Matching fills trades) : total (MatchedTrade.profit fills) trades =
      total Fill.tradedValue (fills.filter fun fill => fill.positionEffect = .close) -
        total Fill.tradedValue (fills.filter fun fill => fill.positionEffect = .open) := by
  have hentries : total (fun trade => (fills[trade.entry]?).elim 0 Fill.unitValue *
      MatchedTrade.quantity trade) trades = _ :=
    total_matched (fun trade htrade => by
      obtain ⟨entry, exit, hentry, -, hopen, -⟩ := pairs_fills (h.paired trade htrade)
      exact ⟨entry, hentry, hopen⟩) h.entries
  have hexits : total (fun trade => (fills[trade.exit]?).elim 0 Fill.unitValue *
      MatchedTrade.quantity trade) trades = _ :=
    total_matched (fun trade htrade => by
      obtain ⟨entry, exit, -, hexit, -, hclose, -⟩ := pairs_fills (h.paired trade htrade)
      exact ⟨exit, hexit, hclose⟩) h.exits
  have hprofit : ∀ trade ∈ trades, trade.profit fills +
      (fills[trade.entry]?).elim 0 Fill.unitValue * trade.quantity =
        (fills[trade.exit]?).elim 0 Fill.unitValue * trade.quantity := by
    intro trade htrade
    obtain ⟨entry, exit, hentry, hexit, -, -, hkey⟩ := pairs_fills (h.paired trade htrade)
    have hsymbol : exit.symbol = entry.symbol := congrArg Prod.fst hkey
    have hside : exit.positionSide = entry.positionSide := congrArg Prod.snd hkey
    simp only [MatchedTrade.profit, hentry, hexit, Option.elim_some, Fill.unitValue, hsymbol, hside]
    ring
  have hsum : total (MatchedTrade.profit fills) trades +
      total (fun trade => (fills[trade.entry]?).elim 0 Fill.unitValue * trade.quantity) trades =
        total (fun trade => (fills[trade.exit]?).elim 0 Fill.unitValue * trade.quantity) trades := by
    rw [← total_congr hprofit]
    simp [total, List.sum_map_add]
  linarith

theorem total_ledgerFlow (fills : List Fill) : total Fill.ledgerFlow fills =
    total Fill.tradedValue (fills.filter fun fill => fill.positionEffect = .close) -
      total Fill.tradedValue (fills.filter fun fill => fill.positionEffect = .open) -
      total Fill.commission fills := by
  induction fills with
  | nil => simp
  | cons fill rest ih =>
    rw [total_cons, ih, Fill.ledgerFlow, total_cons]
    cases heffect : fill.positionEffect with
    | «open» =>
      simp [heffect]
      ring
    | close =>
      simp [heffect]
      ring

end Matched

/-- A futures session in which every contract traded has been closed again holds no margin,
and its cash changed by the profit of its trades less the commissions, however the exits are
matched with the entries. -/
theorem futures_settlement_telescopes {st : State} (h : Reachable id FuturesOnly st)
    (hflat : ∀ position ∈ st.positions, position.totalQuantity = 0) :
    st.account.cash + st.account.frozenCash - st.account.initialCash =
        total Fill.tradedValue (st.fills.filter fun fill => fill.positionEffect = .close) -
          total Fill.tradedValue (st.fills.filter fun fill => fill.positionEffect = .open) -
          total Fill.commission st.fills ∧ (∀ trades, Matching st.fills trades →
        st.account.cash + st.account.frozenCash - st.account.initialCash =
          total (MatchedTrade.profit st.fills) trades - total Fill.commission st.fills) ∧
      st.account.marginUsed = 0 ∧ ∀ position ∈ st.positions, position.marginUsed = 0 := by
  have hbooks := FuturesBooks.reachable h
  have hmargins : ∀ position ∈ st.positions, position.marginUsed = 0 := fun position hmem =>
    (hbooks.settled position hmem).margin_flat (hflat position hmem)
  have hvalues : total Position.carriedValue st.positions = 0 := by
    apply total_zero
    intro position hmem
    simp [Position.carriedValue, hflat position hmem]
  have hbalance := hbooks.balance
  rw [total_zero hmargins, hvalues, total_ledgerFlow] at hbalance
  have hchange : st.account.cash + st.account.frozenCash - st.account.initialCash =
      total Fill.tradedValue (st.fills.filter fun fill => fill.positionEffect = .close) -
        total Fill.tradedValue (st.fills.filter fun fill => fill.positionEffect = .open) -
        total Fill.commission st.fills := by linarith
  refine ⟨hchange, ?_, ?_, hmargins⟩
  · intro trades hmatching
    rw [hchange, hmatching.total_profit]
  · rw [hbooks.margin]
    exact total_zero hmargins

def futureTarget (targetQuantity : ℚ) (hquantity : 0 ≤ targetQuantity) : SimulationTarget where
  symbol := "IF2406"
  market := .future
  instrumentType := .futures
  assetRuleKey := "futures"
  targetQuantity
  signalTraceId := "T1"
  targetQuantity_nonneg := hquantity
  limitPrice_pos := market_not_limited
  limitPrice_none := market_without_price

/-- Opening four contracts, settling them, and closing three and then the last one. -/
def settledRun : List Action :=
  [.transitionSession .running,
   .processBar (flatBar "E1" "IF2406" .future ⟨1, 0, 0⟩ 10 ten_pos),
   .submitDecision (singleDecision "D-1" (futureTarget 4 (by norm_num))) ⟨1, 0, 0⟩,
   .processBar (flatBar "E2" "IF2406" .future ⟨2, 0, 0⟩ 12 (by norm_num)),
   .processBar (flatBar "E3" "IF2406" .future ⟨3, 0, 0⟩ 11 (by norm_num)),
   .submitDecision (singleDecision "D-2" (futureTarget 1 one_nonneg)) ⟨3, 0, 0⟩,
   .processBar (flatBar "E4" "IF2406" .future ⟨4, 0, 0⟩ 13 (by norm_num)),
   .submitDecision (singleDecision "D-3" (futureTarget 0 zero_nonneg)) ⟨4, 0, 0⟩,
   .processBar (flatBar "E5" "IF2406" .future ⟨5, 0, 0⟩ 12 (by norm_num))]

theorem futures_settlement_telescopes_settled :
    let st := runCalls id (sampleSession id) settledRun
    Matching st.fills [⟨0, 1, 3⟩, ⟨0, 2, 1⟩] ∧
      st.account.cash + st.account.frozenCash - st.account.initialCash =
        total (MatchedTrade.profit st.fills) [⟨0, 1, 3⟩, ⟨0, 2, 1⟩] -
          total Fill.commission st.fills ∧
      st.account.marginUsed = 0 := by
  have hreach : Reachable id FuturesOnly (runCalls id (sampleSession id) settledRun) := by
    apply (Reachable.opened (sampleSession_opened id)).calls
    simp [Allowed, settledRun, FuturesOnly, singleDecision, futureTarget]
  have hmatching : Matching (runCalls id (sampleSession id) settledRun).fills
      [⟨0, 1, 3⟩, ⟨0, 2, 1⟩] := by decide +kernel
  have hsettled := futures_settlement_telescopes hreach (by decide +kernel)
  exact ⟨hmatching, hsettled.2.1 _ hmatching, hsettled.2.2.1⟩

end FinDashboard.Simulation
