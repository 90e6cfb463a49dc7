import FinDashboard.Simulation.FrozenCash

/-!
# The cash of a securities session stays non-negative

A purchase is checked against the cash and what its reservation releases, a sale against
nothing: its fees may exceed its turnover.
-/

namespace FinDashboard.Simulation

open Ledger Decimal

variable {money : ℚ → ℚ} {st st' : State} {order : Order} {e : Execution}

/-- A fill the account can bear: the fees of a sale are at most its turnover and the cash, less
what is frozen below zero; a purchase that passes its check takes what the account has. -/
def FillCovered (money : ℚ → ℚ) (st : State) (order : Order) (e : Execution) : Prop :=
  (order.positionEffect = .close → e.commission money + e.tax money order.side ≤
      e.turnover + st.account.cash + min 0 st.account.frozenCash) ∧
    (order.positionEffect = .open →
      e.needed money order.side ≤ st.account.cash + releasedBy money order e →
      e.needed money order.side ≤ st.account.cash + st.account.frozenCash)

instance (money : ℚ → ℚ) (st : State) (order : Order) (e : Execution) :
    Decidable (FillCovered money st order e) :=
  inferInstanceAs (Decidable (_ ∧ _))

/-- The calls of a securities session whose bars fill orders only where they are covered. -/
def CoveredCalls (money : ℚ → ℚ) (st : State) (action : Action) : Prop :=
  SecuritiesOnly st action ∧ match action with
    | .processBar event => BarMeets money (FillCovered money) st event
    | _ => True

instance (money : ℚ → ℚ) (st : State) : (action : Action) → Decidable (CoveredCalls money st action)
  | .processBar event => inferInstanceAs (Decidable (True ∧ BarMeets money _ st event))
  | .submitDecision decision _ => inferInstanceAs (Decidable
      ((∀ target ∈ decision.targets, target.instrumentType ≠ .futures) ∧ True))
  | .cancelOrder _ | .transitionSession _ | .recoverActiveSessions =>
      inferInstanceAs (Decidable (True ∧ True))

/-- Neither the free cash nor the free and the frozen cash together are below zero. -/
structure Solvent (account : Account) : Prop where
  cash : 0 ≤ account.cash
  liquid : 0 ≤ account.cash + account.frozenCash

/-- A securities session with a solvent account. -/
structure SolventBooks (st : State) : Prop where
  books : SecuritiesBooks st
  solvent : Solvent st.account

theorem Solvent.of_eq {account account' : Account} (h : Solvent account)
    (cash : account'.cash = account.cash) (frozen : account'.frozenCash = account.frozenCash) :
    Solvent account' := by
  constructor
  · rw [cash]
    exact h.cash
  · rw [cash, frozen]
    exact h.liquid

/-- A reservation returns at most what is frozen, so the free cash stays covered. -/
theorem Solvent.releaseCash {account : Account} (h : Solvent account) (order : Order) :
    Solvent (releaseCash account order).1 := by
  refine ⟨?_, ?_⟩
  · unfold Simulation.releaseCash
    split_ifs with reserved
    · rcases le_total order.reservedCash account.frozenCash with whole | part
      · simp only [min_eq_left whole]
        linarith [h.cash]
      · simp only [min_eq_right part]
        exact h.liquid
    · exact h.cash
  · rw [releaseCash_sum]
    exact h.liquid

theorem Solvent.bookRows (h : Solvent st.account) (security : e.rule.isFutures = false)
    (covered : FillCovered money st order e) {rows : FillRows} {error : Option SimulationRiskError}
    (booked : bookRows money (fillRows st order e) e = (rows, error)) : Solvent rows.account := by
  obtain ⟨sale, purchase⟩ := covered
  unfold Simulation.bookRows at booked
  cases effect : order.positionEffect with
  | «open» =>
    simp only [fillRows_order, effect] at booked
    cases error with
    | some error =>
      rw [openFill_failed booked]
      exact h
    | none =>
      obtain ⟨checked, written⟩ := openFill_booked booked
      have taken := purchase effect checked
      have checked : e.needed money order.side ≤ st.account.cash + releasedBy money order e := checked
      rw [written]
      constructor
      · change 0 ≤ st.account.cash + releasedBy money order e - e.needed money order.side
        linarith
      · change 0 ≤ st.account.cash + releasedBy money order e - e.needed money order.side +
          (st.account.frozenCash - releasedBy money order e)
        linarith
  | close =>
    simp only [fillRows_order, effect] at booked
    have account : rows.account = closedAccount money st.account
        (ensurePosition st order e.fillPrice).2 order.side e := by
      cases error with
      | some error =>
        rw [(closeFill_failed booked).2]
        rfl
      | none =>
        obtain ⟨sold, -, written⟩ := closeFill_booked booked
        rw [written]
        rfl
    have fees := sale effect
    have below : min 0 st.account.frozenCash ≤ 0 := min_le_left _ _
    have frozen : min 0 st.account.frozenCash ≤ st.account.frozenCash := min_le_right _ _
    rw [account]
    simp only [closedAccount, security, if_false, Bool.false_eq_true]
    constructor
    · change 0 ≤ st.account.cash + (e.turnover - e.commission money - e.tax money order.side)
      linarith
    · change 0 ≤ st.account.cash + (e.turnover - e.commission money - e.tax money order.side) +
        st.account.frozenCash
      linarith

theorem Solvent.settledAccount {rows : FillRows} (h : Solvent rows.account) :
    Solvent (settledAccount money rows e) := by
  unfold Simulation.settledAccount
  split_ifs
  · exact h.releaseCash _
  · exact h

theorem Solvent.applyFill (h : Solvent st.account) (security : e.rule.isFutures = false)
    (covered : FillCovered money st order e) : Solvent (applyFill money st order e).state.account := by
  have step : FillStep money st order e _ := applyFill_step st order e
  generalize Simulation.applyFill money st order e = result at step ⊢
  cases step with
  | known existing => exact h
  | @failed rows error booked =>
    have account : Solvent rows.account := h.bookRows security covered booked
    exact account
  | @booked rows booked =>
    have account : Solvent rows.account := h.bookRows security covered booked
    rw [settleFill_eq]
    exact account.settledAccount.of_eq rfl rfl

theorem SolventBooks.closeOrder (h : SolventBooks st) (hlisted : st.Listed order)
    (hactive : order.isActive = true) {status : OrderStatus}
    (hends : status = .rejected ∨ status = .cancelled) (reason : Reason) :
    SolventBooks (closeOrder st order status reason) := by
  refine ⟨h.books.closeOrder hlisted hactive hends reason, ?_⟩
  rw [closeOrder_account]
  exact h.solvent.releaseCash order

theorem SolventBooks.applyFill (h : SolventBooks st) (hlisted : st.Listed order)
    (hactive : order.isActive = true) (hfits : e.Fits order) (hcovered : FillCovered money st order e) :
    SolventBooks (applyFill money st order e).state := by
  refine ⟨h.books.applyFill hlisted hactive hfits, h.solvent.applyFill ?_ hcovered⟩
  have hclass := h.books.held.futures_iff order hlisted.mem
  rw [isFutures_of_resolveRule hfits.rule]
  simpa using hclass

theorem SolventBooks.markedState (h : SolventBooks st) {position : Position} {bar : Bar}
    {rule : SimulationAssetRule} (hmem : position ∈ st.positions)
    (hrule : position.resolveRule = .ok rule) :
    SolventBooks (markedState money st position bar rule) := by
  refine ⟨h.books.markedState hmem hrule, ?_⟩
  have hclass := (h.books.held.backed position hmem).futures_iff
  have hsecurity : rule.isFutures = false := by
    rw [Position.isFutures_of_resolveRule hrule]
    simpa using hclass
  simp only [Simulation.markedState, hsecurity, if_false, Bool.false_eq_true]
  exact h.solvent

theorem SolventBooks.of_same (h : SolventBooks st) (hsame : SameBooks st st') : SolventBooks st' :=
  ⟨h.books.of_same hsame, h.solvent.of_eq hsame.cash hsame.frozenCash⟩

theorem SolventBooks.placement {decisionId : String} {target : SimulationTarget}
    {rule : SimulationAssetRule} {placed : Option Order} (h : SolventBooks st)
    (hsecurity : target.instrumentType ≠ .futures)
    (hplaced : Placement money st decisionId target rule st' placed) : SolventBooks st' := by
  refine ⟨h.books.placement hsecurity hplaced, ?_⟩
  cases hplaced with
  | satisfied _ => exact h.solvent
  | refused effect quantity eligibleAfter reason message => exact h.solvent
  | @opened terms hterms hdemand heffect hadmits hshort =>
    have enough := hadmits.cash
    rw [hterms.resolved] at enough
    constructor
    · change 0 ≤ st.account.cash - requiredCash st.session.config rule terms.notional
      linarith
    · change 0 ≤ st.account.cash - requiredCash st.session.config rule terms.notional +
        (st.account.frozenCash + requiredCash st.session.config rule terms.notional)
      linarith [h.solvent.liquid]
  | closed hterms heffect hroom hposition havailable => exact h.solvent

theorem SolventBooks.recoverSession (h : SolventBooks st) (hsound : Sound st) :
    SolventBooks (recoverSession money st).1 := by
  refine ⟨h.books.recoverSession hsound, ?_⟩
  unfold Simulation.recoverSession
  simp only
  by_cases hshort : st.account.cash + st.account.frozenCash <
      total Order.reservedCash st.activeOrders
  · rw [if_pos hshort]
    exact h.solvent
  · rw [if_neg hshort]
    have liquid := h.solvent.liquid
    constructor
    · change 0 ≤ st.account.cash + st.account.frozenCash - total Order.reservedCash st.activeOrders
      exact sub_nonneg.mpr (not_lt.mp hshort)
    · change 0 ≤ st.account.cash + st.account.frozenCash -
        total Order.reservedCash st.activeOrders + total Order.reservedCash st.activeOrders
      linarith

theorem SolventBooks.opened (h : Opened moneyQuant st) : SolventBooks st := by
  refine ⟨SecuritiesBooks.opened h, ?_⟩
  cases h with
  | @mk initialCash account haccount validationRunId config signalTraces =>
    unfold createAccount at haccount
    split_ifs at haccount with hcash
    rw [← Except.ok.inj haccount]
    have initial : 0 ≤ moneyQuant initialCash := quantize_nonneg (not_le.mp hcash).le
    exact ⟨initial, by simpa [State.opened] using initial⟩

/-- What every piece but the fills keeps; no bar is listed. -/
theorem SolventBooks.kept (money : ℚ → ℚ) :
    Kept money (fun _ target => target.instrumentType ≠ .futures) (fun _ => False) SolventBooks where
  close := fun _ _ _ reason _ h hlisted hactive hends => h.closeOrder hlisted hactive hends reason
  fill := fun _ hnone => hnone.elim
  mark := fun _ hnone => hnone.elim
  books := fun _ _ hsame h => h.of_same hsame
  place := by
    intro st decisionId now target placed _ h hsecurity hplaced
    obtain ⟨rule, -, hplacement⟩ := targetToOrder_placement hplaced
    exact h.placement hsecurity hplacement

theorem SolventBooks.step {action : Action} (hsound : Sound st) (h : SolventBooks st)
    (hcovered : CoveredCalls money st action) :
    Sound (step money st action) ∧ SolventBooks (step money st action) := by
  have hrecover : action = .recoverActiveSessions → SolventBooks (Simulation.recoverSession money st).1 :=
    fun _ => h.recoverSession hsound
  obtain ⟨hsecurities, hmeets⟩ := hcovered
  cases action with
  | processBar event =>
    simp only [Simulation.step]
    cases hresult : processBar money st event with
    | error error => exact ⟨hsound, h⟩
    | ok result =>
      exact processBar_meeting (kept money).close
        (fun _ _ _ _ h hlisted hactive hfits _ hallowed => h.applyFill hlisted hactive hfits hallowed)
        (fun _ _ _ _ h hmem _ hrule => h.markedState hmem hrule) (kept money).books hsound h hmeets
        hresult
  | submitDecision decision now =>
    exact (kept money).step hsound h (targetsMeet_of_forall hsecurities) hrecover
  | cancelOrder orderId => exact (kept money).step hsound h trivial hrecover
  | transitionSession target => exact (kept money).step hsound h trivial hrecover
  | recoverActiveSessions => exact (kept money).step hsound h trivial hrecover

/-- In every run of a securities session whose fills are covered the cash is never below zero. -/
theorem cash_nonneg {st : State} (h : Reachable moneyQuant (CoveredCalls moneyQuant) st) :
    0 ≤ st.account.cash := by
  have hbooks : Sound st ∧ SolventBooks st := by
    induction h with
    | opened hnew => exact ⟨Sound.opened hnew, SolventBooks.opened hnew⟩
    | call _ hcovered ih => exact SolventBooks.step ih.1 ih.2 hcovered
  exact hbooks.2.solvent.cash

theorem cash_nonneg_trading :
    0 ≤ (runCalls moneyQuant (sampleSession moneyQuant) tradingRun).account.cash := by
  apply cash_nonneg
  apply (Reachable.opened (sampleSession_opened moneyQuant)).calls
  decide +kernel

/-- A new session with little cash. -/
def smallSession : State :=
  State.opened { initialCash := moneyQuant 9.08, cash := moneyQuant 9.08, equity := moneyQuant 9.08 }
    "RR-1" sampleConfig [⟨"RR-1", "D1", "T1"⟩]

/-- A lot of a fund at four cents, bought and sold again. -/
def pennyRun : List Action :=
  [.transitionSession .running,
   .processBar (flatBar "E1" "513100" .aShare ⟨1, 0, 0⟩ 0.04 (by norm_num)),
   .submitDecision (singleDecision "D-1" (securityTarget "513100" "cross_border_etf" .etf 100
     hundred_nonneg)) ⟨1, 0, 0⟩,
   .processBar (flatBar "E2" "513100" .aShare ⟨2, 0, 0⟩ 0.04 (by norm_num)),
   .processBar (flatBar "E3" "513100" .aShare ⟨3, 0, 0⟩ 0.04 (by norm_num)),
   .submitDecision (singleDecision "D-2" (securityTarget "513100" "cross_border_etf" .etf 0
     zero_nonneg)) ⟨3, 0, 0⟩,
   .processBar (flatBar "E4" "513100" .aShare ⟨4, 0, 0⟩ 0.04 (by norm_num))]

/-- The sale yields 3.9 and is charged a commission of 5. -/
theorem cash_nonneg_fails : ∃ st, Reachable moneyQuant SecuritiesOnly st ∧ st.account.cash < 0 := by
  refine ⟨runCalls moneyQuant smallSession pennyRun, ?_, by decide +kernel⟩
  have account : createAccount moneyQuant 9.08 = .ok _ := if_neg (by norm_num)
  apply (Reachable.opened (Opened.mk account "RR-1" sampleConfig [⟨"RR-1", "D1", "T1"⟩])).calls
  simp [Allowed, pennyRun, SecuritiesOnly, singleDecision, securityTarget]

end FinDashboard.Simulation
