import FinDashboard.Simulation.Placement

/-!
# Invariants of the runs

The rules of the remaining calls, and the rule of a run: what every piece keeps holds after
every call the condition of the run allows.
-/

namespace FinDashboard.Simulation

open Ledger List

variable {money : ℚ → ℚ} {P : State → Prop} {st st' : State}

theorem Sound.placement {decisionId : String} {target : SimulationTarget} {rule : SimulationAssetRule}
    {order : Option Order} (h : Sound st) (hplaced : Placement money st decisionId target rule st' order) :
    Sound st' := by
  cases hplaced with
  | satisfied _ => exact h
  | refused effect quantity eligibleAfter reason message =>
    have hended : (refusedRow st decisionId target effect quantity eligibleAfter reason
        message).isActive = false := rfl
    exact h.add rfl (fun hactive => absurd (hended.symm.trans hactive) Bool.false_ne_true) rfl rfl rfl
  | opened hterms hdemand heffect hadmits hshort =>
    exact h.add rfl (fun _ => checkOrder_room hadmits.order) rfl rfl rfl
  | closed hterms heffect hroom hposition havailable =>
    exact h.add rfl (fun _ => checkOrder_room hroom) rfl map_key_overwrite rfl

variable {now : Timestamp}

/-- The loop over the targets; the invariant may speak of those that are still to come. -/
theorem submitTargets_invariant {decisionId : String}
    (Q : List SimulationTarget → Submission → Prop)
    (hplace : ∀ target rest progress placed, Sound progress.state → Q (target :: rest) progress →
      targetToOrder money progress.state decisionId now target = .ok placed →
      Q rest { state := placed.1, orders := progress.orders ++ placed.2.toList })
    {targets : List SimulationTarget} {progress progress' : Submission}
    (hsound : Sound progress.state) (hQ : Q targets progress)
    (h : targets.foldlM (submitTarget money decisionId now) progress = .ok progress') :
    Sound progress'.state ∧ Q [] progress' := by
  induction targets generalizing progress with
  | nil =>
    have heq := Except.ok.inj h
    rw [← heq]
    exact ⟨hsound, hQ⟩
  | cons target rest ih =>
    rw [foldlM_cons] at h
    obtain ⟨mid, hmid, hlater⟩ := bind_eq_ok.mp h
    unfold submitTarget at hmid
    cases hplaced : targetToOrder money progress.state decisionId now target with
    | error error =>
      rw [hplaced] at hmid
      cases hmid
    | ok placed =>
      rw [hplaced] at hmid
      have heq := Except.ok.inj hmid
      rw [← heq] at hlater
      obtain ⟨rule, -, hplacement⟩ := targetToOrder_placement hplaced
      exact ih (hsound.placement hplacement) (hplace target rest progress placed hsound hQ hplaced)
        hlater

/-- The rows of an accepted decision before its targets are treated. -/
def State.accepting (st : State) (decision : SimulationDecision) : State :=
  { st with decisions := st.decisions ++ [⟨decision.decisionId, decision.checksum⟩] }

theorem sameBooks_accepting (st : State) (decision : SimulationDecision) :
    SameBooks st (st.accepting decision) :=
  ⟨rfl, rfl, rfl, Or.inl rfl, rfl, rfl, rfl, rfl⟩

theorem sameBooks_revalue (money : ℚ → ℚ) (st : State) : SameBooks st (revalueAccount money st) :=
  ⟨rfl, rfl, rfl, Or.inr rfl, rfl, rfl, rfl, rfl⟩

/-- A decision that was accepted before changes nothing; a new one is the loop over its targets. -/
theorem submitDecision_cases {decision : SimulationDecision} {result : DecisionResult}
    (h : submitDecision money st decision now = .ok result) :
    (result.state = st ∧ result.duplicate = true) ∨
      ∃ submitted, decision.targets.foldlM (submitTarget money decision.decisionId now)
          { state := st.accepting decision, orders := [] } = .ok submitted ∧
        result = { state := revalueAccount money submitted.state, orders := submitted.orders,
                   duplicate := false } := by
  obtain ⟨-, h⟩ := unit_bind_eq_ok.mp h
  obtain ⟨-, h⟩ := unit_bind_eq_ok.mp h
  obtain ⟨-, h⟩ := unit_bind_eq_ok.mp h
  cases hexisting : st.decisions.find? (fun row => row.decisionId = decision.decisionId) with
  | some existing =>
    simp only [hexisting] at h
    obtain ⟨-, h⟩ := unit_bind_eq_ok.mp h
    rw [← Except.ok.inj h]
    exact Or.inl ⟨rfl, rfl⟩
  | none =>
    simp only [hexisting] at h
    obtain ⟨-, h⟩ := unit_bind_eq_ok.mp h
    obtain ⟨submitted, hsubmitted, h⟩ := bind_eq_ok.mp h
    exact Or.inr ⟨submitted, hsubmitted, (Except.ok.inj h).symm⟩

/-- The rows once the event of a bar has its row. -/
def State.receiving (st : State) (event : SimulationBarEvent) : State :=
  match st.marketEvents.find? (fun row => row.sourceEventId = event.sourceEventId) with
  | none => { st with marketEvents := st.marketEvents ++ [marketEventRow event] }
  | some _ => st.setEventStatus event.sourceEventId .processing

theorem sameBooks_receiving (st : State) (event : SimulationBarEvent) :
    SameBooks st (st.receiving event) ∧ (st.receiving event).session = st.session := by
  unfold State.receiving
  cases st.marketEvents.find? (fun row => row.sourceEventId = event.sourceEventId) with
  | none => exact ⟨⟨rfl, rfl, rfl, Or.inl rfl, rfl, rfl, rfl, rfl⟩, rfl⟩
  | some existing => exact ⟨⟨rfl, rfl, rfl, Or.inl rfl, rfl, rfl, rfl, rfl⟩, rfl⟩

variable {event : SimulationBarEvent} {result : ProcessResult}

/-- A known bar changes nothing; a new or failed one advances the session. -/
theorem processBar_receiving (h : processBar money st event = .ok result) :
    result.state = st ∨ advanceBar money (st.receiving event) event = .ok result := by
  obtain ⟨-, h⟩ := unit_bind_eq_ok.mp h
  obtain ⟨-, h⟩ := unit_bind_eq_ok.mp h
  unfold State.receiving
  cases hexisting : st.marketEvents.find? (fun row => row.sourceEventId = event.sourceEventId) with
  | none =>
    simp only [hexisting] at h
    exact Or.inr h
  | some existing =>
    simp only [hexisting] at h
    obtain ⟨-, h⟩ := unit_bind_eq_ok.mp h
    by_cases hdone : existing.status = .processed
    · rw [if_pos hdone] at h
      rw [← Except.ok.inj h]
      exact Or.inl rfl
    · rw [if_neg hdone] at h
      exact Or.inr h

theorem processBar_cases (h : processBar money st event = .ok result) :
    result.state = st ∨ ∃ st', SameBooks st st' ∧ st'.session = st.session ∧
      advanceBar money st' event = .ok result := by
  obtain hknown | hadvance := processBar_receiving h
  · exact Or.inl hknown
  · obtain ⟨hsame, hsession⟩ := sameBooks_receiving st event
    exact Or.inr ⟨st.receiving event, hsame, hsession, hadvance⟩

/-- A condition on the fills of a bar, as a condition on the call. -/
def BarMeets (money : ℚ → ℚ) (allowed : State → Order → Execution → Prop) (st : State)
    (event : SimulationBarEvent) : Prop :=
  FillsMeet money allowed event (previousCloseOf (st.receiving event) event)
    { state := st.receiving event } ((st.receiving event).activeOrdersOf event.bar.symbol.code)

instance decidableBarMeets {allowed : State → Order → Execution → Prop}
    [∀ st order e, Decidable (allowed st order e)] (st : State) (event : SimulationBarEvent) :
    Decidable (BarMeets money allowed st event) := decidableFillsMeet _ _

theorem processBar_meeting {allowed : State → Order → Execution → Prop} (hclose : KeptByClose P)
    (hfill : KeptByAllowedFill money allowed event.bar P) (hmark : KeptByMark money event.bar P)
    (hbooks : KeptByBooks P) (hsound : Sound st) (hP : P st) (hmeets : BarMeets money allowed st event)
    (hresult : processBar money st event = .ok result) : Sound result.state ∧ P result.state := by
  obtain hknown | hadvance := processBar_receiving hresult
  · rw [hknown]
    exact ⟨hsound, hP⟩
  · obtain ⟨hstart, -⟩ := sameBooks_receiving st event
    have hadvanced := advanceBar_meeting hclose hfill hmark hbooks (hsound.of_same hstart)
      (hbooks _ _ hstart hP) hmeets hadvance
    exact ⟨hadvanced.1, hadvanced.2.1⟩

theorem foldl_rows {β ρ : Type} {round : β → ρ → β} {Apart : ρ → ρ → Prop} {rows : List ρ} {b : β}
    (P : β → Prop) (Present : β → ρ → Prop) (hapart : rows.Pairwise Apart)
    (hpresent : ∀ row ∈ rows, Present b row) (hP : P b) (hround : ∀ b row, P b → Present b row →
      P (round b row) ∧ ∀ other, Apart row other → Present b other → Present (round b row) other) :
    P (rows.foldl round b) := by
  have hrun : rows.foldlM (fun b row => (Except.ok (round b row) : Except Unit β)) b =
      .ok (rows.foldl round b) := foldlM_pure
  apply foldlM_rows P Present hrun hapart hpresent hP
  intro b row b' hP hthere hstep
  rw [← Except.ok.inj hstep]
  exact hround b row hP hthere

theorem cancelAllActive_invariant (hclose : KeptByClose P) (hsound : Sound st) (hP : P st)
    (reason : Reason) : Sound (cancelAllActive st reason) ∧ P (cancelAllActive st reason) := by
  unfold cancelAllActive
  rw [hsound.activeOrders_eq]
  apply foldl_rows (fun st => Sound st ∧ P st)
    (fun st order => st.Listed order ∧ order.isActive = true) (hsound.pairwise_filter _) _
    ⟨hsound, hP⟩
  · intro st order hboth hpresent
    constructor
    · exact ⟨hboth.1.closeOrder hpresent.1 hpresent.2 _ _,
        hclose _ _ _ _ hboth.1 hboth.2 hpresent.1 hpresent.2 (Or.inr rfl)⟩
    · intro other hapart hthere
      refine ⟨?_, hthere.2⟩
      unfold State.Listed
      rw [closeOrder_orders, getElem?_set_ne (Ne.symm hapart)]
      exact hthere.1
  · intro order hmem
    obtain ⟨hmem, hactive⟩ := mem_filter.mp hmem
    exact ⟨hsound.listed hmem, hactive⟩

theorem cancelOrder_invariant {orderId : ℕ} (hclose : KeptByClose P) (hbooks : KeptByBooks P)
    (hsound : Sound st) (hP : P st) (h : cancelOrder money st orderId = .ok st') : Sound st' ∧ P st' := by
  obtain ⟨-, h⟩ := unit_bind_eq_ok.mp h
  cases hrow : st.orders[orderId]? with
  | none =>
    simp only [hrow] at h
    cases h
  | some order =>
    simp only [hrow] at h
    obtain ⟨hactive, h⟩ := unit_bind_eq_ok.mp h
    have hactive' := require_eq_ok.mp hactive
    have hlisted := hsound.listed (mem_of_getElem? hrow)
    have hended : P (closeOrder st order .cancelled .manualCancel) :=
      hclose _ _ _ _ hsound hP hlisted hactive' (Or.inr rfl)
    rw [← Except.ok.inj h]
    exact ⟨(hsound.closeOrder hlisted hactive' _ _).of_same (sameBooks_revalue money _),
      hbooks _ _ (sameBooks_revalue money _) hended⟩

theorem transitionSession_invariant {target : SessionStatus} (hclose : KeptByClose P)
    (hbooks : KeptByBooks P) (hsound : Sound st) (hP : P st)
    (h : transitionSession money st target = .ok st') : Sound st' ∧ P st' := by
  obtain ⟨-, h⟩ := unit_bind_eq_ok.mp h
  obtain ⟨-, h⟩ := unit_bind_eq_ok.mp h
  have hmoved : SameBooks st { st with session := { st.session with status := target } } :=
    ⟨rfl, rfl, rfl, Or.inl rfl, rfl, rfl, rfl, rfl⟩
  have hkept : ∀ st', SameBooks st st' → Sound st' ∧ P st' := fun st' hsame =>
    ⟨hsound.of_same hsame, hbooks _ _ hsame hP⟩
  cases target with
  | stopped =>
    obtain ⟨hsound', hP'⟩ := cancelAllActive_invariant hclose (hkept _ hmoved).1 (hkept _ hmoved).2
      .sessionStopped
    rw [← Except.ok.inj h]
    exact ⟨hsound'.of_same (sameBooks_revalue money _), hbooks _ _ (sameBooks_revalue money _) hP'⟩
  | archived =>
    rw [← Except.ok.inj h]
    exact hkept _ ⟨rfl, rfl, rfl, Or.inl rfl, rfl, rfl, rfl, rfl⟩
  | _ =>
    rw [← Except.ok.inj h]
    exact hkept _ hmoved

theorem recoverPositions_keys (active : List Order) (today : Date) (positions : List Position) :
    (recoverPositions active today positions).1.map Position.key = positions.map Position.key := by
  induction positions with
  | nil => rfl
  | cons position rest ih =>
    unfold recoverPositions
    simp only
    split_ifs
    · rfl
    · rw [map_cons, map_cons, ih]
      rfl

theorem Sound.recoverSession (h : Sound st) : Sound (recoverSession money st).1 := by
  unfold Simulation.recoverSession
  simp only
  by_cases hshort : st.account.cash + st.account.frozenCash < total Order.reservedCash st.activeOrders
  · rw [if_pos hshort]
    exact h.of_same ⟨rfl, rfl, rfl, Or.inl rfl, rfl, rfl, rfl, rfl⟩
  · rw [if_neg hshort]
    refine ⟨h.indexed, h.bounded, ?_⟩
    change ((recoverPositions st.activeOrders st.clockDate st.positions).1.map Position.key).Nodup
    rw [recoverPositions_keys]
    exact h.keys

/-- A condition on the states in which the targets of a decision are treated. -/
def TargetsMeet (money : ℚ → ℚ) (allowed : State → SimulationTarget → Prop) (decisionId : String)
    (now : Timestamp) : State → List SimulationTarget → Prop
  | _, [] => True
  | st, target :: rest => allowed st target ∧
      ∀ placed, targetToOrder money st decisionId now target = .ok placed →
        TargetsMeet money allowed decisionId now placed.1 rest

/-- A condition on targets and bars, as a condition on calls. -/
def Action.Meets (money : ℚ → ℚ) (allowed : State → SimulationTarget → Prop)
    (listed : State → SimulationBarEvent → Prop) (st : State) : Action → Prop
  | .submitDecision decision now =>
      TargetsMeet money allowed decision.decisionId now (st.accepting decision) decision.targets
  | .processBar event => listed st event
  | _ => True

/-- An invariant of every piece of every call. -/
structure Kept (money : ℚ → ℚ) (allowed : State → SimulationTarget → Prop)
    (listed : SimulationBarEvent → Prop) (P : State → Prop) : Prop where
  close : KeptByClose P
  fill : ∀ event, listed event → KeptByFill money event.bar P
  mark : ∀ event, listed event → KeptByMark money event.bar P
  books : KeptByBooks P
  place : ∀ st decisionId now target placed, Sound st → P st → allowed st target →
    targetToOrder money st decisionId now target = .ok placed → P placed.1

namespace Kept

variable {allowed : State → SimulationTarget → Prop} {listed : SimulationBarEvent → Prop}

theorem submitDecision (h : Kept money allowed listed P) {decision : SimulationDecision}
    {result : DecisionResult} (hsound : Sound st) (hP : P st)
    (hmeets : TargetsMeet money allowed decision.decisionId now (st.accepting decision) decision.targets)
    (hresult : submitDecision money st decision now = .ok result) :
    Sound result.state ∧ P result.state := by
  obtain ⟨hsame, -⟩ | ⟨submitted, hsubmitted, heq⟩ := submitDecision_cases hresult
  · rw [hsame]
    exact ⟨hsound, hP⟩
  · have hstart := sameBooks_accepting st decision
    have hloop :=
      submitTargets_invariant
        (fun rest progress => P progress.state ∧
          TargetsMeet money allowed decision.decisionId now progress.state rest)
        (by
          intro target rest progress placed hsound hQ hplaced
          exact ⟨h.place _ _ _ _ _ hsound hQ.1 hQ.2.1 hplaced, hQ.2.2 placed hplaced⟩)
        (hsound.of_same hstart) ⟨h.books _ _ hstart hP, hmeets⟩ hsubmitted
    rw [heq]
    exact ⟨hloop.1.of_same (sameBooks_revalue money _), h.books _ _ (sameBooks_revalue money _) hloop.2.1⟩

theorem processBar (h : Kept money allowed listed P) (hsound : Sound st) (hP : P st)
    (hlisted : listed event) (hresult : processBar money st event = .ok result) :
    Sound result.state ∧ P result.state := by
  obtain hsame | ⟨start, hstart, -, hadvance⟩ := processBar_cases hresult
  · rw [hsame]
    exact ⟨hsound, hP⟩
  · have hadvanced := advanceBar_invariant h.close (h.fill event hlisted) (h.mark event hlisted)
      h.books (hsound.of_same hstart) (h.books _ _ hstart hP) hadvance
    exact ⟨hadvanced.1, hadvanced.2.1⟩

theorem step (h : Kept money allowed listed P) {action : Action} (hsound : Sound st) (hP : P st)
    (hmeets : action.Meets money allowed (fun _ => listed) st)
    (hrecover : action = .recoverActiveSessions → P (recoverSession money st).1) :
    Sound (step money st action) ∧ P (step money st action) := by
  cases action with
  | submitDecision decision now =>
    simp only [Simulation.step]
    cases hresult : Simulation.submitDecision money st decision now with
    | error error => exact ⟨hsound, hP⟩
    | ok result => exact h.submitDecision hsound hP hmeets hresult
  | processBar event =>
    simp only [Simulation.step]
    cases hresult : Simulation.processBar money st event with
    | error error => exact ⟨hsound, hP⟩
    | ok result => exact h.processBar hsound hP hmeets hresult
  | cancelOrder orderId =>
    simp only [Simulation.step]
    cases hresult : Simulation.cancelOrder money st orderId with
    | error error => exact ⟨hsound, hP⟩
    | ok st' => exact cancelOrder_invariant h.close h.books hsound hP hresult
  | transitionSession target =>
    simp only [Simulation.step]
    cases hresult : Simulation.transitionSession money st target with
    | error error => exact ⟨hsound, hP⟩
    | ok st' => exact transitionSession_invariant h.close h.books hsound hP hresult
  | recoverActiveSessions =>
    simp only [Simulation.step, recoverActiveSessions]
    split_ifs
    · exact ⟨hsound.recoverSession, hrecover rfl⟩
    · exact ⟨hsound, hP⟩

end Kept

/-- One call after the other. -/
def runCalls (money : ℚ → ℚ) (st : State) (actions : List Action) : State :=
  actions.foldl (step money) st

/-- A condition on every call of a run. -/
def Allowed (money : ℚ → ℚ) (allowed : State → Action → Prop) : State → List Action → Prop
  | _, [] => True
  | st, action :: rest => allowed st action ∧ Allowed money allowed (step money st action) rest

instance decidableAllowed {allowed : State → Action → Prop}
    [hallowed : ∀ st action, Decidable (allowed st action)] :
    ∀ st actions, Decidable (Allowed money allowed st actions)
  | _, [] => isTrue trivial
  | st, action :: rest =>
      have : Decidable (Allowed money allowed (step money st action) rest) := decidableAllowed _ _
      inferInstanceAs (Decidable (allowed st action ∧ _))

theorem Reachable.calls {allowed : State → Action → Prop} {actions : List Action}
    (h : Reachable money allowed st) (hallowed : Allowed money allowed st actions) :
    Reachable money allowed (runCalls money st actions) := by
  induction actions generalizing st with
  | nil => exact h
  | cons action rest ih => exact ih (.call h hallowed.1) hallowed.2

theorem Sound.opened (h : Opened money st) : Sound st := by
  cases h with
  | mk haccount validationRunId config signalTraces =>
    exact ⟨rfl, Nat.zero_le _, nodup_nil⟩

/-- What every piece keeps holds in every state of the runs the condition allows. -/
theorem Kept.reachable {allowed : State → SimulationTarget → Prop} {listed : SimulationBarEvent → Prop}
    (h : Kept money allowed listed P) (hopened : ∀ st, Opened money st → P st)
    (hrecover : ∀ st, Sound st → P st → P (recoverSession money st).1)
    (hreach : Reachable money (Action.Meets money allowed fun _ => listed) st) : Sound st ∧ P st := by
  induction hreach with
  | opened hnew => exact ⟨Sound.opened hnew, hopened _ hnew⟩
  | call _ hmeets ih => exact h.step ih.1 ih.2 hmeets fun _ => hrecover _ ih.1 ih.2

end FinDashboard.Simulation
