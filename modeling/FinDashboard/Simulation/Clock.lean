import FinDashboard.Simulation.HeldRuns

/-!
# The market clock

Only a bar moves the clock, to its own time. An invariant may therefore speak of the day of the
clock: it is kept for a fixed day by every other call, and a bar carries it to the bar's day.
-/

namespace FinDashboard.Simulation

open Ledger

variable {money : ℚ → ℚ} {st st' : State}

theorem Placement.session {decisionId : String} {target : SimulationTarget}
    {rule : SimulationAssetRule} {placed : Option Order}
    (h : Placement money st decisionId target rule st' placed) : st'.session = st.session := by
  cases h <;> rfl

theorem submitDecision_session {decision : SimulationDecision} {now : Timestamp}
    {result : DecisionResult} (hsound : Sound st)
    (h : submitDecision money st decision now = .ok result) : result.state.session = st.session := by
  obtain ⟨hsame, -⟩ | ⟨submitted, hsubmitted, heq⟩ := submitDecision_cases h
  · rw [hsame]
  · have hloop : Sound submitted.state ∧ submitted.state.session = st.session := by
      apply submitTargets_invariant (fun _ progress => progress.state.session = st.session) _
        (hsound.of_same (sameBooks_accepting st decision)) rfl hsubmitted
      intro target rest progress placed _ hsession hplaced
      obtain ⟨rule, -, hplacement⟩ := targetToOrder_placement hplaced
      exact hplacement.session.trans hsession
    rw [heq]
    exact hloop.2

theorem cancelAllActive_session (st : State) (reason : Reason) :
    (cancelAllActive st reason).session = st.session := by
  have hloop : ∀ (orders : List Order) (st : State), (orders.foldl
      (fun st order => closeOrder st order .cancelled reason) st).session = st.session := by
    intro orders
    induction orders with
    | nil => exact fun _ => rfl
    | cons order rest ih =>
      intro st
      rw [List.foldl_cons, ih, closeOrder_session]
  exact hloop st.activeOrders st

theorem cancelOrder_session {orderId : ℕ} (h : cancelOrder money st orderId = .ok st') :
    st'.session = st.session := by
  obtain ⟨-, h⟩ := unit_bind_eq_ok.mp h
  cases hrow : st.orders[orderId]? with
  | none =>
    simp only [hrow] at h
    cases h
  | some order =>
    simp only [hrow] at h
    obtain ⟨-, h⟩ := unit_bind_eq_ok.mp h
    rw [← Except.ok.inj h]
    exact closeOrder_session st order .cancelled .manualCancel

theorem transitionSession_clock {target : SessionStatus}
    (h : transitionSession money st target = .ok st') : st'.session.clock = st.session.clock := by
  obtain ⟨-, h⟩ := unit_bind_eq_ok.mp h
  obtain ⟨-, h⟩ := unit_bind_eq_ok.mp h
  cases target with
  | stopped =>
    rw [← Except.ok.inj h]
    have hsession := cancelAllActive_session
      { st with session := { st.session with status := .stopped } } .sessionStopped
    simp only [revalueAccount, hsession]
  | _ =>
    rw [← Except.ok.inj h]

theorem recoverSession_clock (st : State) :
    (recoverSession money st).1.session.clock = st.session.clock := by
  unfold recoverSession
  simp only
  split_ifs <;> rfl

theorem clockDate_congr (h : st'.session.clock = st.session.clock) : st'.clockDate = st.clockDate := by
  unfold State.clockDate
  rw [h]

/-- The available quantity as a bar counts it. -/
def Position.FreshOn (day : Date) (position : Position) : Prop :=
  position.availableQuantity = max 0 (position.maturedQuantity day - position.frozenQuantity)

/-- The securities of the bar's symbol have been recounted. -/
def Refreshed (bar : Bar) (st : State) : Prop :=
  ∀ position ∈ st.positions, position.symbol = bar.symbol.code →
    position.instrumentType ≠ .futures → position.FreshOn bar.timestamp.date

theorem markPosition_fresh {bar : Bar} {position : Position}
    (h : markPosition money bar st position = .ok st') :
    ∀ other ∈ st'.positions, (other ∈ st.positions ∧ (other.key ≠ position.key ∨
        other.symbol ≠ bar.symbol.code ∨ position.symbol ≠ bar.symbol.code)) ∨
      (other.instrumentType ≠ .futures → other.FreshOn bar.timestamp.date) := by
  unfold markPosition at h
  by_cases hsymbol : position.symbol ≠ bar.symbol.code
  · rw [if_pos hsymbol] at h
    rw [← Except.ok.inj h]
    exact fun other hother => Or.inl ⟨hother, Or.inr (Or.inr hsymbol)⟩
  · rw [if_neg hsymbol] at h
    obtain ⟨rule, hrule, hmarked⟩ := bind_eq_ok.mp h
    have hstate : markedState money st position bar rule = st' := by
      unfold markedState
      by_cases hfutures : rule.isFutures = true
      · simp only [hfutures, if_true] at hmarked ⊢
        exact Except.ok.inj hmarked
      · simp only [hfutures, if_false, Bool.false_eq_true] at hmarked ⊢
        exact Except.ok.inj hmarked
    obtain ⟨marked, hsame, havailable, -, hpositions⟩ := markedState_cases money st position bar rule
    rw [← hstate, hpositions]
    intro other hother
    obtain rfl | ⟨hold, hne⟩ := mem_overwrite hother
    · right
      intro hsecurity
      have hclass := Position.isFutures_of_resolveRule hrule
      rw [hsame.instrumentType] at hsecurity
      obtain ⟨hfutures, -⟩ | ⟨-, heq⟩ := havailable
      · rw [hfutures] at hclass
        exact absurd (of_decide_eq_true hclass.symm) hsecurity
      · unfold Position.FreshOn Position.maturedQuantity
        rw [hsame.instrumentType, hsame.lots, hsame.frozenQuantity, hsame.totalQuantity]
        exact heq
    · left
      rw [hsame.key] at hne
      exact ⟨hold, Or.inl hne⟩

/-- The loop of a bar recounts every security of its symbol. -/
theorem markToMarket_refreshed {bar : Bar} (h : markToMarketAndSettle money st bar = .ok st') :
    Refreshed bar st' := by
  have hloop : ∀ (rows : List Position) (st st' : State),
      rows.foldlM (markPosition money bar) st = .ok st' →
      ∀ position ∈ st'.positions, position.symbol = bar.symbol.code →
        position.instrumentType ≠ .futures →
          (position ∈ st.positions ∧ ∀ row ∈ rows, row.key ≠ position.key) ∨
            position.FreshOn bar.timestamp.date := by
    intro rows
    induction rows with
    | nil =>
      intro st st' hrun position hmem _ _
      rw [← Except.ok.inj hrun] at hmem
      exact Or.inl ⟨hmem, fun row hrow => by cases hrow⟩
    | cons row rest ih =>
      intro st st' hrun position hmem hsymbol hsecurity
      rw [List.foldlM_cons] at hrun
      obtain ⟨mid, hmid, hlater⟩ := bind_eq_ok.mp hrun
      obtain ⟨hthere, hrest⟩ | hfresh := ih mid st' hlater position hmem hsymbol hsecurity
      · obtain ⟨hold, hother⟩ | hfresh := markPosition_fresh hmid position hthere
        · left
          refine ⟨hold, fun other hmem' => ?_⟩
          obtain rfl | hlater' := List.mem_cons.mp hmem'
          · intro hkey
            have hsame := congrArg Prod.fst hkey
            obtain hne | hne | hne := hother
            · exact hne hkey.symm
            · exact hne hsymbol
            · exact hne (hsame.trans hsymbol)
          · exact hrest other hlater'
        · exact Or.inr (hfresh hsecurity)
      · exact Or.inr hfresh
  intro position hmem hsymbol hsecurity
  obtain ⟨hold, hnone⟩ | hfresh := hloop st.positions st st' h position hmem hsymbol hsecurity
  · exact absurd rfl (hnone position hold)
  · exact hfresh

/-- A bar: what holds before and is kept by its pieces holds after it, the positions of its symbol
are recounted and the clock stands at its time. -/
theorem processBar_invariant {Q : State → Prop} {event : SimulationBarEvent} {result : ProcessResult}
    (hclose : KeptByClose Q) (hfill : KeptByFill money event.bar Q)
    (hmark : KeptByMark money event.bar Q) (hbooks : KeptByBooks Q) (hsound : Sound st) (hQ : Q st)
    (h : processBar money st event = .ok result) :
    result.state = st ∨ Sound result.state ∧ Q result.state ∧ Refreshed event.bar result.state ∧
      result.state.session.clock = some event.bar.timestamp := by
  obtain hsame | ⟨start, hstart, -, hadvance⟩ := processBar_cases h
  · exact Or.inl hsame
  · obtain ⟨hsound', hQ', hclock, -⟩ := advanceBar_invariant hclose hfill hmark hbooks
      (hsound.of_same hstart) (hbooks _ _ hstart hQ) hadvance
    refine Or.inr ⟨hsound', hQ', ?_, hclock⟩
    unfold advanceBar at hadvance
    obtain ⟨_, -, hadvance⟩ := bind_eq_ok.mp hadvance
    obtain ⟨matched, -, hadvance⟩ := bind_eq_ok.mp hadvance
    obtain ⟨marked, hmarked, hadvance⟩ := bind_eq_ok.mp hadvance
    have hrefreshed := markToMarket_refreshed hmarked
    rw [← Except.ok.inj hadvance]
    exact hrefreshed

/-- Bars come in the order of their dates. -/
def Chronological (st : State) (event : SimulationBarEvent) : Prop :=
  st.clockDate ≤ event.bar.timestamp.date

instance (st : State) (event : SimulationBarEvent) : Decidable (Chronological st event) :=
  inferInstanceAs (Decidable (_ ≤ _))

/-- An invariant `P` of the day of the clock, and what holds within a bar. -/
structure KeptDaily (money : ℚ → ℚ) (allowed : State → SimulationTarget → Prop)
    (listed : State → SimulationBarEvent → Prop) (P : Date → State → Prop)
    (Q : SimulationBarEvent → State → Prop) : Prop where
  close : ∀ day, KeptByClose (P day)
  books : ∀ day, KeptByBooks (P day)
  place : ∀ day st decisionId now target placed, Sound st → P day st → allowed st target →
    targetToOrder money st decisionId now target = .ok placed → P day placed.1
  recover : ∀ st, Sound st → P st.clockDate st → P st.clockDate (recoverSession money st).1
  start : ∀ st event, Sound st → P st.clockDate st → listed st event → Q event st
  closeBar : ∀ event, KeptByClose (Q event)
  fillBar : ∀ event, KeptByFill money event.bar (Q event)
  markBar : ∀ event, KeptByMark money event.bar (Q event)
  booksBar : ∀ event, KeptByBooks (Q event)
  finish : ∀ event st, Sound st → Q event st → Refreshed event.bar st →
    P event.bar.timestamp.date st

namespace KeptDaily

variable {allowed : State → SimulationTarget → Prop} {listed : State → SimulationBarEvent → Prop}
  {P : Date → State → Prop} {Q : SimulationBarEvent → State → Prop}

/-- The pieces of the calls that leave the clock, for a fixed day. -/
theorem fixed (h : KeptDaily money allowed listed P Q) (day : Date) :
    Kept money allowed (fun _ => False) (P day) where
  close := h.close day
  fill := fun _ hnever => hnever.elim
  mark := fun _ hnever => hnever.elim
  books := h.books day
  place := h.place day

theorem step (h : KeptDaily money allowed listed P Q) {action : Action} (hsound : Sound st)
    (hP : P st.clockDate st) (hmeets : action.Meets money allowed listed st) :
    Sound (step money st action) ∧ P (step money st action).clockDate (step money st action) := by
  have hkept : ∀ st', st'.session.clock = st.session.clock →
      Sound st' ∧ P st.clockDate st' → Sound st' ∧ P st'.clockDate st' := by
    intro st' hclock hboth
    rw [clockDate_congr hclock]
    exact hboth
  cases action with
  | submitDecision decision now =>
    simp only [Simulation.step]
    cases hresult : Simulation.submitDecision money st decision now with
    | error error => exact ⟨hsound, hP⟩
    | ok result =>
      exact hkept _ (congrArg Session.clock (submitDecision_session hsound hresult))
        ((h.fixed st.clockDate).submitDecision hsound hP hmeets hresult)
  | processBar event =>
    simp only [Simulation.step]
    cases hresult : Simulation.processBar money st event with
    | error error => exact ⟨hsound, hP⟩
    | ok result =>
      obtain hsame | ⟨hsound', hQ, hrefreshed, hclock⟩ := processBar_invariant (h.closeBar event)
        (h.fillBar event) (h.markBar event) (h.booksBar event) hsound
        (h.start st event hsound hP hmeets) hresult
      · simp only [Except.map, committed, hsame]
        exact ⟨hsound, hP⟩
      · have hdate : result.state.clockDate = event.bar.timestamp.date := by
          unfold State.clockDate
          rw [hclock]
          rfl
        simp only [Except.map, committed, hdate]
        exact ⟨hsound', h.finish event _ hsound' hQ hrefreshed⟩
  | cancelOrder orderId =>
    simp only [Simulation.step]
    cases hresult : Simulation.cancelOrder money st orderId with
    | error error => exact ⟨hsound, hP⟩
    | ok st' =>
      exact hkept _ (congrArg Session.clock (cancelOrder_session hresult))
        (cancelOrder_invariant (h.close _) (h.books _) hsound hP hresult)
  | transitionSession target =>
    simp only [Simulation.step]
    cases hresult : Simulation.transitionSession money st target with
    | error error => exact ⟨hsound, hP⟩
    | ok st' =>
      exact hkept _ (transitionSession_clock hresult)
        (transitionSession_invariant (h.close _) (h.books _) hsound hP hresult)
  | recoverActiveSessions =>
    simp only [Simulation.step, recoverActiveSessions]
    split_ifs
    · exact hkept _ (recoverSession_clock st) ⟨hsound.recoverSession, h.recover st hsound hP⟩
    · exact ⟨hsound, hP⟩

/-- What the pieces keep holds in every state of the runs the conditions allow. -/
theorem reachable (h : KeptDaily money allowed listed P Q)
    (hopened : ∀ st, Opened money st → P st.clockDate st)
    (hreach : Reachable money (Action.Meets money allowed listed) st) : Sound st ∧ P st.clockDate st := by
  induction hreach with
  | opened hnew => exact ⟨Sound.opened hnew, hopened _ hnew⟩
  | call _ hmeets ih => exact h.step ih.1 ih.2 hmeets

end KeptDaily

theorem daysUpTo {day later : Date} (h : day ≤ later) (other : Date) :
    decide (other ≤ day) = true → decide (other ≤ later) = true := by
  simp only [decide_eq_true_eq]
  exact fun hother => hother.trans h

theorem Held.keptDaily (money : ℚ → ℚ) (futures : String → Bool) :
    KeptDaily money (fun _ target => target.Classified futures) Chronological
      (fun day => Held futures fun other => other ≤ day)
      (fun event => Held futures fun other => other ≤ event.bar.timestamp.date) where
  close := fun _ _ _ _ reason _ h hlisted hactive hends => h.closeOrder hlisted hactive hends reason
  books := fun _ _ _ hsame h => h.of_same hsame
  place := by
    intro day st decisionId now target placed _ h hclass hplaced
    obtain ⟨rule, -, hplacement⟩ := targetToOrder_placement hplaced
    exact h.placement hclass hplacement
  recover := fun st hsound h => h.recoverSession hsound fun _ hday => decide_eq_true hday
  start := fun _ _ _ h hlater => h.mono (daysUpTo hlater)
  closeBar := fun _ _ _ _ reason _ h hlisted hactive hends =>
    h.closeOrder hlisted hactive hends reason
  fillBar := by
    intro event st order e _ h hlisted hactive hfits htime
    apply h.applyFill hlisted hactive hfits
    rw [htime.1]
    exact fun _ hday => decide_eq_true hday
  markBar := fun _ _ _ rule _ h hmem _ _ =>
    h.markedState hmem (fun _ hday => decide_eq_true hday) rule
  booksBar := fun _ _ _ hsame h => h.of_same hsame
  finish := fun _ _ _ h _ => h

end FinDashboard.Simulation
