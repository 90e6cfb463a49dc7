import FinDashboard.Simulation.SoundTables

/-!
# Invariants of the calls

Every call is a loop of a few pieces: ending an order, filling it, marking a position,
placing an order. An invariant that each piece keeps is kept by the call.
-/

namespace FinDashboard.Simulation

open Ledger List

variable {money : ℚ → ℚ}

/-- A loop over rows that a round finds in place and leaves in place for the later rounds. -/
theorem foldlM_rows {ε β ρ : Type} {round : β → ρ → Except ε β} {Apart : ρ → ρ → Prop} {rows : List ρ}
    {b b' : β} (P : β → Prop) (Present : β → ρ → Prop) (h : rows.foldlM round b = .ok b')
    (hapart : rows.Pairwise Apart) (hpresent : ∀ row ∈ rows, Present b row) (hP : P b)
    (hround : ∀ b row b', P b → Present b row → round b row = .ok b' →
      P b' ∧ ∀ other, Apart row other → Present b other → Present b' other) : P b' := by
  induction rows generalizing b with
  | nil =>
    have heq := Except.ok.inj h
    rw [← heq]
    exact hP
  | cons row rest ih =>
    obtain ⟨hfirst, hrest⟩ := pairwise_cons.mp hapart
    rw [foldlM_cons] at h
    obtain ⟨mid, hmid, hlater⟩ := bind_eq_ok.mp h
    obtain ⟨hPmid, hkept⟩ := hround b row mid hP (hpresent row mem_cons_self) hmid
    refine ih hlater hrest (fun other hother => ?_) hPmid
    exact hkept other (hfirst other hother) (hpresent other (mem_cons_of_mem _ hother))

/-- An execution that `match_order` may report for an order. -/
structure Execution.Fits (e : Execution) (order : Order) : Prop where
  rule : order.resolveRule = .ok e.rule
  quantity_pos : 0 < e.quantity
  quantity_le : e.quantity ≤ order.remaining
  price_pos : 0 < e.fillPrice

/-- The execution `match_order` reports for an order on a bar, if it reports one. -/
def offered (st : State) (event : SimulationBarEvent) (previousClose : Option ℚ) (order : Order) :
    Option Execution :=
  match order.resolveRule with
  | .error _ => none
  | .ok rule =>
      match matchOrder (pendingOrder order) event.bar previousClose rule.rule
          st.session.config.matching with
      | .fill quantity rawPrice fillPrice _ => some {
          quantity, fillPrice, rawPrice, rule
          filledAt := event.bar.timestamp, sourceEventId := event.sourceEventId }
      | _ => none

/-- A condition on the fills of a bar, each in the state in which its order is reached. -/
def FillsMeet (money : ℚ → ℚ) (allowed : State → Order → Execution → Prop)
    (event : SimulationBarEvent) (previousClose : Option ℚ) : BarProgress → List Order → Prop
  | _, [] => True
  | progress, order :: rest =>
      (∀ e ∈ offered progress.state event previousClose order, allowed progress.state order e) ∧
        ∀ progress' ∈ (matchListed money event previousClose progress order).toOption,
          FillsMeet money allowed event previousClose progress' rest

instance decidableFillsMeet {allowed : State → Order → Execution → Prop}
    [∀ st order e, Decidable (allowed st order e)] {event : SimulationBarEvent}
    {previousClose : Option ℚ} :
    ∀ progress orders, Decidable (FillsMeet money allowed event previousClose progress orders)
  | _, [] => isTrue trivial
  | progress, order :: rest =>
      have : ∀ progress', Decidable (FillsMeet money allowed event previousClose progress' rest) :=
        fun _ => decidableFillsMeet _ _
      inferInstanceAs (Decidable ((∀ e ∈ offered progress.state event previousClose order,
        allowed progress.state order e) ∧ ∀ progress' ∈ _, _))

/-- Ending an active order keeps the invariant. -/
def KeptByClose (P : State → Prop) : Prop :=
  ∀ st order status reason, Sound st → P st → st.Listed order → order.isActive = true →
    (status = .rejected ∨ status = .cancelled) → P (closeOrder st order status reason)

/-- Filling an active order of the bar's symbol at the time of the bar keeps the invariant. -/
def KeptByFill (money : ℚ → ℚ) (bar : Bar) (P : State → Prop) : Prop :=
  ∀ st order e, Sound st → P st → st.Listed order → order.isActive = true → e.Fits order →
    e.filledAt = bar.timestamp ∧ order.symbol = bar.symbol.code → P (applyFill money st order e).state

/-- Filling an active order keeps the invariant where the fill is allowed. -/
def KeptByAllowedFill (money : ℚ → ℚ) (allowed : State → Order → Execution → Prop) (bar : Bar)
    (P : State → Prop) : Prop :=
  ∀ st order e, Sound st → P st → st.Listed order → order.isActive = true → e.Fits order →
    e.filledAt = bar.timestamp ∧ order.symbol = bar.symbol.code → allowed st order e →
      P (applyFill money st order e).state

/-- Marking a position of the bar's symbol keeps the invariant. -/
def KeptByMark (money : ℚ → ℚ) (bar : Bar) (P : State → Prop) : Prop :=
  ∀ st position rule, Sound st → P st → position ∈ st.positions →
    position.symbol = bar.symbol.code → position.resolveRule = .ok rule →
    P (markedState money st position bar rule)

/-- Bookkeeping keeps the invariant. -/
def KeptByBooks (P : State → Prop) : Prop := ∀ st st', SameBooks st st' → P st → P st'

section Rules

variable {P : State → Prop} {st : State} {event : SimulationBarEvent} {previousClose : Option ℚ}
variable {order : Order}

theorem fits_of_offered {e : Execution} (h : e ∈ offered st event previousClose order) :
    e.Fits order ∧ e.filledAt = event.bar.timestamp := by
  unfold offered at h
  cases hrule : order.resolveRule with
  | error error =>
    rw [hrule] at h
    cases h
  | ok rule =>
    simp only [hrule] at h
    cases houtcome : matchOrder (pendingOrder order) event.bar previousClose rule.rule
        st.session.config.matching with
    | fill quantity rawPrice fillPrice cancelRemainder =>
      rw [houtcome] at h
      obtain ⟨hquantity, hremaining, hprice⟩ := fill_of_matchOrder houtcome
      rw [← Option.some.inj h]
      exact ⟨⟨hrule, hquantity, hremaining, hprice⟩, rfl⟩
    | _ =>
      rw [houtcome] at h
      cases h

/-- The fills and rejections of one order on a bar. -/
theorem finishFill_invariant {e : Execution} (progress : BarProgress)
    (cancelRemainder : Bool) (hclose : KeptByClose P) (hsound : Sound st) (hlisted : st.Listed order)
    (hactive : order.isActive = true) (hP : P (applyFill money st order e).state) :
    Sound (finishFill progress (applyFill money st order e) cancelRemainder).state ∧
      P (finishFill progress (applyFill money st order e) cancelRemainder).state ∧
      ∀ i, i ≠ order.orderId →
        (finishFill progress (applyFill money st order e) cancelRemainder).state.orders[i]? =
          st.orders[i]? := by
  have horders : (applyFill money st order e).state.orders = _ := applyFill_orders st order e hlisted
  have hid : (applyFill money st order e).order.orderId = order.orderId :=
    (applyFill_terms st order e).orderId
  have hstatus : (applyFill money st order e).order.isActive = true ∨ _ :=
    applyFill_status hactive
  have hsound' : Sound (applyFill money st order e).state := hsound.applyFill hlisted hactive
  have hlisted' : (applyFill money st order e).state.Listed (applyFill money st order e).order := by
    obtain ⟨hlt, -⟩ := List.getElem?_eq_some_iff.mp hlisted
    unfold State.Listed
    rw [hid, horders]
    exact List.getElem?_set_self hlt
  have hother : ∀ i, i ≠ order.orderId →
      (applyFill money st order e).state.orders[i]? = st.orders[i]? := by
    intro i hi
    rw [horders, List.getElem?_set_ne (Ne.symm hi)]
  have hended : ∀ status reason, (status = .rejected ∨ status = .cancelled) →
      (applyFill money st order e).order.isActive = true →
      Sound (closeOrder (applyFill money st order e).state (applyFill money st order e).order
          status reason) ∧
        P (closeOrder (applyFill money st order e).state (applyFill money st order e).order
          status reason) ∧
        ∀ i, i ≠ order.orderId → (closeOrder (applyFill money st order e).state
          (applyFill money st order e).order status reason).orders[i]? = st.orders[i]? := by
    intro status reason hends hstill
    refine ⟨hsound'.closeOrder hlisted' hstill status reason,
      hclose _ _ _ _ hsound' hP hlisted' hstill hends, fun i hi => ?_⟩
    rw [closeOrder_orders, hid, List.getElem?_set_ne (Ne.symm hi), hother i hi]
  unfold finishFill
  cases houtcome : (applyFill money st order e).outcome with
  | error error =>
    obtain hstill | ⟨-, fillId, hok⟩ := hstatus
    · exact hended _ _ (Or.inl rfl) hstill
    · rw [houtcome] at hok
      cases hok
  | ok fillId =>
    simp only
    by_cases hrest : cancelRemainder = true ∧ (applyFill money st order e).order.status ≠ .filled
    · rw [if_pos hrest]
      obtain hstill | ⟨hfilled, -⟩ := hstatus
      · exact hended _ _ (Or.inr rfl) hstill
      · exact absurd hfilled hrest.2
    · rw [if_neg hrest]
      exact ⟨hsound', hP, hother⟩

/-- One round of the loop over the orders of a bar. -/
theorem matchListed_invariant {progress progress' : BarProgress}
    (h : matchListed money event previousClose progress order = .ok progress') (hclose : KeptByClose P)
    (hfill : ∀ e ∈ offered progress.state event previousClose order,
      P (applyFill money progress.state order e).state) (hsound : Sound progress.state)
    (hP : P progress.state) (hlisted : progress.state.Listed order) (hactive : order.isActive = true) :
    (Sound progress'.state ∧ P progress'.state) ∧
      ∀ i, i ≠ order.orderId → progress'.state.orders[i]? = progress.state.orders[i]? := by
  obtain ⟨rule, hrule, hmatch⟩ := bind_eq_ok.mp h
  have hended : ∀ status reason, (status = .rejected ∨ status = .cancelled) →
      (Sound (closeOrder progress.state order status reason) ∧
        P (closeOrder progress.state order status reason)) ∧
      ∀ i, i ≠ order.orderId →
        (closeOrder progress.state order status reason).orders[i]? = progress.state.orders[i]? := by
    intro status reason hends
    refine ⟨⟨hsound.closeOrder hlisted hactive status reason,
      hclose _ _ _ _ hsound hP hlisted hactive hends⟩, fun i hi => ?_⟩
    rw [closeOrder_orders, List.getElem?_set_ne (Ne.symm hi)]
  cases houtcome : matchOrder (pendingOrder order) event.bar previousClose rule.rule
      progress.state.session.config.matching with
  | wait reason =>
    rw [houtcome] at hmatch
    rw [← Except.ok.inj hmatch]
    exact ⟨⟨hsound, hP⟩, fun _ _ => rfl⟩
  | reject reason =>
    rw [houtcome] at hmatch
    rw [← Except.ok.inj hmatch]
    exact hended _ _ (Or.inl rfl)
  | cancel reason =>
    rw [houtcome] at hmatch
    rw [← Except.ok.inj hmatch]
    exact hended _ _ (Or.inr rfl)
  | fill quantity rawPrice fillPrice cancelRemainder =>
    rw [houtcome] at hmatch
    rw [← Except.ok.inj hmatch]
    have hoffered : offered progress.state event previousClose order = some
        { quantity, fillPrice, rawPrice, rule, filledAt := event.bar.timestamp,
          sourceEventId := event.sourceEventId } := by
      simp only [offered, hrule, houtcome]
    have hfilled := hfill _ hoffered
    obtain ⟨hsound', hP', hother⟩ :=
      finishFill_invariant progress cancelRemainder hclose hsound hlisted hactive hfilled
    exact ⟨⟨hsound', hP'⟩, hother⟩

/-- The orders an active listing returns, as a loop over rows sees them. -/
theorem Sound.pairwise_filter (h : Sound st) (p : Order → Bool) :
    (st.orders.filter p).Pairwise fun a b => b.orderId ≠ a.orderId := by
  have hids := pairwise_map.mp h.indexed.nodup
  exact (hids.filter p).imp Ne.symm

variable {allowed : State → Order → Execution → Prop}

theorem matchOrders_meeting {progress progress' : BarProgress} {orders : List Order}
    (hclose : KeptByClose P) (hfill : KeptByAllowedFill money allowed event.bar P)
    (hsound : Sound progress.state) (hP : P progress.state)
    (hapart : orders.Pairwise fun a b => b.orderId ≠ a.orderId)
    (hpresent : ∀ order ∈ orders, progress.state.Listed order ∧ order.isActive = true ∧
      order.symbol = event.bar.symbol.code)
    (hmeets : FillsMeet money allowed event previousClose progress orders)
    (h : orders.foldlM (matchListed money event previousClose) progress = .ok progress') :
    Sound progress'.state ∧ P progress'.state := by
  induction orders generalizing progress with
  | nil =>
    have heq := Except.ok.inj h
    rw [← heq]
    exact ⟨hsound, hP⟩
  | cons order rest ih =>
    obtain ⟨hfirst, hrest⟩ := pairwise_cons.mp hapart
    obtain ⟨hthis, hnext⟩ := hmeets
    obtain ⟨hlisted, hactive, hsymbol⟩ := hpresent order mem_cons_self
    rw [foldlM_cons] at h
    obtain ⟨mid, hmid, hlater⟩ := bind_eq_ok.mp h
    have hfilled : ∀ e ∈ offered progress.state event previousClose order,
        P (applyFill money progress.state order e).state := by
      intro e hoffered
      obtain ⟨hfits, hfilledAt⟩ := fits_of_offered hoffered
      exact hfill _ _ _ hsound hP hlisted hactive hfits ⟨hfilledAt, hsymbol⟩ (hthis e hoffered)
    obtain ⟨⟨hsound', hP'⟩, hother⟩ :=
      matchListed_invariant hmid hclose hfilled hsound hP hlisted hactive
    refine ih hsound' hP' hrest (fun other hmem => ?_) (hnext mid (by rw [hmid]; rfl)) hlater
    obtain ⟨hthere, hstill⟩ := hpresent other (mem_cons_of_mem _ hmem)
    refine ⟨?_, hstill⟩
    unfold State.Listed
    rw [hother other.orderId (hfirst other hmem)]
    exact hthere

theorem fillsMeet_of_forall {progress : BarProgress} {orders : List Order}
    (h : ∀ st order e, allowed st order e) :
    FillsMeet money allowed event previousClose progress orders := by
  induction orders generalizing progress with
  | nil => trivial
  | cons order rest ih => exact ⟨fun e _ => h _ _ e, fun _ _ => ih⟩

theorem markToMarket_invariant {bar : Bar} {st' : State} (hmark : KeptByMark money bar P)
    (hsound : Sound st) (hP : P st) (h : markToMarketAndSettle money st bar = .ok st') :
    Sound st' ∧ P st' := by
  refine foldlM_rows (fun st => Sound st ∧ P st) (fun st position => position ∈ st.positions) h
    (pairwise_map.mp hsound.keys) (fun position hmem => hmem) ⟨hsound, hP⟩ ?_
  intro st position st' hboth hpresent hround
  unfold markPosition at hround
  by_cases hsymbol : position.symbol ≠ bar.symbol.code
  · rw [if_pos hsymbol] at hround
    rw [← Except.ok.inj hround]
    exact ⟨hboth, fun _ _ hthere => hthere⟩
  · rw [if_neg hsymbol] at hround
    obtain ⟨rule, hrule, hmarked⟩ := bind_eq_ok.mp hround
    have hstate : markedState money st position bar rule = st' := by
      unfold markedState
      by_cases hfutures : rule.isFutures = true
      · simp only [hfutures, if_true] at hmarked ⊢
        exact Except.ok.inj hmarked
      · simp only [hfutures, if_false, Bool.false_eq_true] at hmarked ⊢
        exact Except.ok.inj hmarked
    obtain ⟨marked, hkey, hpositions⟩ := (markedState_frame money st position bar rule).positions
    rw [← hstate]
    refine ⟨⟨hboth.1.markedState position bar rule,
      hmark _ _ _ hboth.1 hboth.2 hpresent (not_not.mp hsymbol) hrule⟩, fun other hapart hthere => ?_⟩
    rw [hpositions]
    refine mem_map.mpr ⟨other, hthere, if_neg ?_⟩
    rw [hkey]
    exact Ne.symm hapart

def previousCloseOf (st : State) (event : SimulationBarEvent) : Option ℚ :=
  (st.latestMarketEvent event.bar.symbol.code event.bar.timestamp).map (·.close)

/-- A bar. The clock is set at the end, when the invariant is already restored. -/
theorem advanceBar_meeting
    {result : ProcessResult} (hclose : KeptByClose P)
    (hfill : KeptByAllowedFill money allowed event.bar P) (hmark : KeptByMark money event.bar P)
    (hbooks : KeptByBooks P) (hsound : Sound st) (hP : P st)
    (hmeets : FillsMeet money allowed event (previousCloseOf st event) { state := st }
      (st.activeOrdersOf event.bar.symbol.code))
    (h : advanceBar money st event = .ok result) :
    Sound result.state ∧ P result.state ∧
      result.state.session.clock = some event.bar.timestamp ∧
      (∀ current ∈ st.session.clock, current.instant ≤ event.bar.timestamp.instant) := by
  unfold advanceBar at h
  obtain ⟨_, hclock, h⟩ := bind_eq_ok.mp h
  obtain ⟨matched, hmatched, h⟩ := bind_eq_ok.mp h
  obtain ⟨marked, hmarked, h⟩ := bind_eq_ok.mp h
  rw [hsound.activeOrdersOf_eq] at hmatched hmeets
  have hpresent : ∀ order ∈ st.orders.filter
      (fun order => order.isActive && order.symbol = event.bar.symbol.code),
      st.Listed order ∧ order.isActive = true ∧ order.symbol = event.bar.symbol.code := by
    intro order hmem
    obtain ⟨hmem, hactive⟩ := mem_filter.mp hmem
    obtain ⟨hactive, hsymbol⟩ := Bool.and_eq_true_iff.mp hactive
    exact ⟨hsound.listed hmem, hactive, of_decide_eq_true hsymbol⟩
  obtain ⟨hsound', hP'⟩ := matchOrders_meeting hclose hfill hsound hP (hsound.pairwise_filter _)
    hpresent hmeets hmatched
  obtain ⟨hsound'', hP''⟩ := markToMarket_invariant hmark hsound' hP' hmarked
  rw [← Except.ok.inj h]
  have hsame : SameBooks marked ((revalueAccount money { marked with
      session := { marked.session with clock := some event.bar.timestamp } }).setEventStatus
        event.sourceEventId .processed) := ⟨rfl, rfl, rfl, Or.inr rfl, rfl, rfl, rfl, rfl⟩
  exact ⟨hsound''.of_same hsame, hbooks _ _ hsame hP'', rfl, require_eq_ok.mp hclock⟩

theorem advanceBar_invariant {result : ProcessResult}
    (hclose : KeptByClose P) (hfill : KeptByFill money event.bar P)
    (hmark : KeptByMark money event.bar P) (hbooks : KeptByBooks P) (hsound : Sound st) (hP : P st)
    (h : advanceBar money st event = .ok result) : Sound result.state ∧ P result.state ∧
      result.state.session.clock = some event.bar.timestamp ∧
      (∀ current ∈ st.session.clock, current.instant ≤ event.bar.timestamp.instant) :=
  advanceBar_meeting hclose
    (fun st order e hsound hP hlisted hactive hfits hwhen (_ : True) =>
      hfill st order e hsound hP hlisted hactive hfits hwhen)
    hmark hbooks hsound hP (fillsMeet_of_forall fun _ _ _ => trivial) h

end Rules

end FinDashboard.Simulation
