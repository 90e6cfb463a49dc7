import FinDashboard.Simulation.FrozenCash
import FinDashboard.Simulation.Maturity

/-!
# Recovery after a restart

Recovery recomputes the frozen cash and the frozen and available quantities from the active
orders and the clock. Where reservations are whole units and no bar lets lots of another symbol
mature, every call keeps them in the form recovery computes, so that recovery changes nothing.
-/

namespace FinDashboard.Simulation

open Ledger Decimal

variable {money : ℚ → ℚ} {futures : String → Bool} {day : Date} {days : Date → Bool}
  {st st' : State} {order : Order} {position : Position} {e : Execution}

/-- The available quantity is all that has matured and is not frozen. -/
def Position.Full (day : Date) (position : Position) : Prop :=
  position.availableQuantity + position.frozenQuantity = position.maturedQuantity day

theorem Position.FreshOn.full (h : position.FreshOn day)
    (hfrozen : position.frozenQuantity ≤ position.maturedQuantity day) : position.Full day := by
  unfold Position.Full
  rw [h, max_eq_right (sub_nonneg.mpr hfrozen), sub_add_cancel]

theorem Position.Full.fresh (h : position.Full day) (hnonneg : 0 ≤ position.availableQuantity) :
    position.FreshOn day := by
  unfold Position.FreshOn
  rw [← h, add_sub_cancel_right, max_eq_right hnonneg]

/-- The days up to the day of a bar. -/
abbrev upTo (day : Date) : Date → Bool := fun other => other ≤ day

theorem Position.Backed.frozen_le_matured (h : position.Backed futures (upTo day)) :
    position.frozenQuantity ≤ position.maturedQuantity day := h.frozen_le_capacity

theorem Position.Full.release (h : position.Full day) (hbacked : position.Backed futures (upTo day))
    (hle : order.reservedQuantity ≤ position.frozenQuantity) :
    (releaseQuantity position order).1.Full day := by
  have hmatured : position.maturedQuantity day ≤ position.totalQuantity := hbacked.capacity_le
  unfold releaseQuantity
  by_cases hpos : 0 < order.reservedQuantity
  · rw [if_pos hpos]
    unfold Position.Full at h ⊢
    have hroom : position.availableQuantity + order.reservedQuantity ≤ position.totalQuantity := by
      linarith
    simp only [min_eq_left hle, min_eq_right hroom]
    change position.availableQuantity + order.reservedQuantity +
      (position.frozenQuantity - order.reservedQuantity) = position.maturedQuantity day
    linarith
  · rw [if_neg hpos]
    exact h

theorem maturedQuantity_congr {position' : Position}
    (htype : position'.instrumentType = position.instrumentType)
    (htotal : position'.totalQuantity = position.totalQuantity) (hlots : position'.lots = position.lots)
    (day : Date) : position'.maturedQuantity day = position.maturedQuantity day := by
  unfold Position.maturedQuantity
  rw [htype, htotal, hlots]

theorem releaseQuantity_symbol (position : Position) (order : Order) :
    (releaseQuantity position order).1.symbol = position.symbol :=
  congrArg Prod.fst (releaseQuantity_key position order)

theorem releaseQuantity_instrumentType (position : Position) (order : Order) :
    (releaseQuantity position order).1.instrumentType = position.instrumentType := by
  unfold releaseQuantity
  split_ifs <;> rfl

/-- The positions that a condition names are counted as recovery counts them. -/
def Counted (counts : String → Prop) (day : Date) (st : State) : Prop :=
  ∀ position ∈ st.positions, counts position.symbol ∨ position.instrumentType = .futures →
    position.Full day

variable {counts : String → Prop}

theorem Counted.of_positions (h : Counted counts day st) (hpositions : st'.positions = st.positions) :
    Counted counts day st' := by
  unfold Counted
  rw [hpositions]
  exact h

theorem Counted.closeOrder (h : Counted counts day st) (hheld : Held futures (upTo day) st)
    (hlisted : st.Listed order) (hactive : order.isActive = true) (status : OrderStatus)
    (reason : Reason) : Counted counts day (closeOrder st order status reason) := by
  intro position hmem hcounts
  obtain ⟨hold, -⟩ | ⟨old, hold, hkey, rfl⟩ := closeOrder_positions st order status reason position hmem
  · exact h position hold hcounts
  · rw [releaseQuantity_symbol, releaseQuantity_instrumentType] at hcounts
    exact (h old hold hcounts).release (hheld.backed old hold)
      (hheld.reserved_le_frozen hlisted.mem hactive hold hkey)

theorem Counted.markedState {bar : Bar} {rule : SimulationAssetRule} (h : Counted counts day st)
    (hmem : position ∈ st.positions) (hrule : position.resolveRule = .ok rule)
    (hother : ¬counts position.symbol) : Counted counts day (markedState money st position bar rule) := by
  obtain ⟨position', hsame, havailable, -, hpositions⟩ := markedState_cases money st position bar rule
  unfold Counted
  rw [hpositions]
  intro other hthere hcounts
  obtain rfl | ⟨hold, -⟩ := mem_overwrite hthere
  · rw [hsame.symbol, hsame.instrumentType] at hcounts
    have hfutures := hcounts.resolve_left hother
    have hclass := Position.isFutures_of_resolveRule hrule
    obtain ⟨-, heq⟩ | ⟨hsecurity, -⟩ := havailable
    · have hbefore := h position hmem hcounts
      unfold Position.Full at hbefore ⊢
      rw [heq, hsame.frozenQuantity, hbefore,
        maturedQuantity_congr hsame.instrumentType hsame.totalQuantity hsame.lots]
    · rw [hsecurity, hfutures] at hclass
      simp at hclass
  · exact h other hold hcounts

theorem Counted.placement {decisionId : String} {target : SimulationTarget}
    {rule : SimulationAssetRule} {placed : Option Order} (h : Counted counts day st)
    (hplaced : Placement money st decisionId target rule st' placed) : Counted counts day st' := by
  cases hplaced with
  | satisfied _ => exact h
  | refused effect quantity eligibleAfter reason message => exact h
  | opened hterms hdemand heffect hadmits hshort => exact h
  | @closed terms position hterms heffect hroom hposition havailable =>
    obtain ⟨hmem, -⟩ := mem_of_getPosition hposition
    intro other hother hcounts
    obtain rfl | ⟨hold, -⟩ := mem_overwrite hother
    · have hbefore := h position hmem hcounts
      unfold Position.Full at hbefore ⊢
      change position.availableQuantity - terms.quantity +
        (position.frozenQuantity + terms.quantity) = position.maturedQuantity day
      linarith
    · exact h other hold hcounts

/-- The position of a fill is recounted on the day of the fill. -/
theorem soldPosition_fresh (position : Position) (quantity : ℚ) (lots : List Lot) (trackLot : Bool)
    (htrack : trackLot = !decide (position.instrumentType = .futures)) :
    (soldPosition position quantity lots day trackLot).FreshOn day := by
  unfold soldPosition Position.FreshOn
  by_cases hempty : position.totalQuantity - quantity ≤ 0
  · simp only [if_pos hempty, Position.maturedQuantity]
    split_ifs <;> simp
  · simp only [if_neg hempty, htrack, Position.maturedQuantity]
    by_cases hfutures : position.instrumentType = .futures <;> simp [hfutures]

theorem Held.booked_fresh (h : Held futures days st) (hlisted : st.Listed order) (hfits : e.Fits order)
    {rows : FillRows} (hbook : bookRows money (fillRows st order e) e = (rows, none)) :
    rows.position.FreshOn e.filledAt.date := by
  have hclass := h.isFutures_eq hlisted hfits
  unfold bookRows at hbook
  cases heffect : order.positionEffect with
  | «open» =>
    simp only [fillRows_order, heffect] at hbook
    have hrows : rows.position = openedPosition money (filledPosition st order e) e := by
      rw [(openFill_booked hbook).2]
      rfl
    rw [hrows]
    by_cases hfutures : (filledPosition st order e).instrumentType = .futures
    · rw [openedPosition_of_futures (by simp [hclass, hfutures])]
      unfold Position.FreshOn Position.maturedQuantity
      simp only [hfutures, if_true]
    · rw [openedPosition_of_security (by simp [hclass, hfutures]) hfutures]
      unfold Position.FreshOn Position.maturedQuantity
      simp only [if_neg hfutures]
  | close =>
    simp only [fillRows_order, heffect] at hbook
    obtain ⟨sold, hsold, hrows⟩ := closeFill_booked hbook
    obtain ⟨-, lots, -, rfl⟩ := decreasePosition_ok hsold
    have htrack : (!e.rule.isFutures) = !decide ((unfrozenPosition money (fillRows st order e)
        e).instrumentType = .futures) := by
      rw [hclass]
      rfl
    have hfresh : (soldPosition (unfrozenPosition money (fillRows st order e) e) e.quantity lots
        e.filledAt.date (!e.rule.isFutures)).FreshOn e.filledAt.date :=
      soldPosition_fresh _ e.quantity lots _ htrack
    rw [hrows]
    exact hfresh

theorem Counted.ensurePosition (h : Counted counts day st) (order : Order) (price : ℚ) :
    Counted counts day (ensurePosition st order price).1 := by
  obtain ⟨position, -, heq⟩ | ⟨-, heq⟩ := ensurePosition_cases st order price
  · rw [heq]
    exact h
  · rw [heq]
    intro other hother hcounts
    obtain rfl | hold := mem_addPosition.mp hother
    · unfold Position.Full Position.maturedQuantity
      split_ifs <;> exact add_zero 0
    · exact h other hold hcounts

theorem Counted.applyFill (h : Counted counts day st) (hheld : Held futures (upTo day) st)
    (hlisted : st.Listed order) (hactive : order.isActive = true) (hfits : e.Fits order)
    (hday : e.filledAt.date = day) : Counted counts day (applyFill money st order e).state := by
  have htoday : ∀ other, other ≤ e.filledAt.date → upTo day other = true := by
    rw [hday]
    exact fun _ hother => decide_eq_true hother
  have hensured := h.ensurePosition order e.fillPrice
  obtain ⟨hmem, -⟩ := ensurePosition_spec st order e.fillPrice
  have hstep : FillStep money st order e _ := applyFill_step st order e
  generalize Simulation.applyFill money st order e = result at hstep ⊢
  cases hstep with
  | known existing => exact h
  | failed hbook =>
    rw [(hheld.failed_rows hlisted hactive hfits htoday hbook).2]
    intro position hposition hcounts
    obtain rfl | ⟨hold, -⟩ := mem_overwrite hposition
    · exact hensured _ hmem hcounts
    · exact hensured position hold hcounts
  | @booked rows hbook =>
    have hsettled := hheld.settled hlisted hactive hfits htoday hbook
    have hmarked := (hheld.settledPosition_eq hlisted hactive hfits htoday hbook).1
    have hfresh : (settledPosition money rows e).FreshOn day := by
      have hbooked := hheld.booked_fresh hlisted hfits hbook
      rw [hmarked, ← hday]
      unfold Position.marked
      split_ifs <;> exact hbooked
    rw [settleFill_eq]
    intro position hposition hcounts
    obtain rfl | ⟨hold, -⟩ := mem_overwrite hposition
    · exact hfresh.full hsettled.backed.frozen_le_matured
    · exact hensured position hold hcounts

/-- The ledger as recovery leaves it, on the day of the clock. -/
structure Recovered (futures : String → Bool) (day : Date) (st : State) : Prop where
  held : Held futures (upTo day) st
  counted : Counted (fun _ => True) day st
  frozen : FrozenBooks st

theorem Recovered.frozenCash (h : Recovered futures day st) (hsound : Sound st) :
    total Order.reservedCash st.activeOrders = st.account.frozenCash := by
  rw [hsound.activeOrders_eq, h.frozen.total_active, h.frozen.frozen]

theorem Recovered.recovered_positions (h : Recovered futures st.clockDate st) (hsound : Sound st) :
    recoverPositions st.activeOrders st.clockDate st.positions = (st.positions, false) := by
  rw [h.held.recovered_positions hsound]
  congr 1
  have hsame : ∀ position ∈ st.positions,
      position.recovered position.frozenQuantity st.clockDate = id position := by
    intro position hmem
    have hfull := h.counted position hmem (Or.inl trivial)
    have hfresh := hfull.fresh (h.held.backed position hmem).available_nonneg
    unfold Position.recovered
    rw [← hfresh]
    rfl
  rw [List.map_congr_left hsame, List.map_id]

/-- The rows a recovery of a consistent ledger leaves. -/
theorem Recovered.recoverSession_books (h : Recovered futures st.clockDate st) (hsound : Sound st) :
    SameBooks st (recoverSession money st).1 := by
  unfold Simulation.recoverSession
  simp only [h.frozenCash hsound, h.recovered_positions hsound]
  by_cases hshort : st.account.cash + st.account.frozenCash < st.account.frozenCash
  · rw [if_pos hshort]
    exact ⟨rfl, rfl, rfl, Or.inl rfl, rfl, rfl, rfl, rfl⟩
  · rw [if_neg hshort]
    exact ⟨rfl, add_sub_cancel_right _ _, rfl, Or.inr rfl, rfl, rfl, rfl, rfl⟩

theorem Recovered.of_same (h : Recovered futures day st) (hsame : SameBooks st st') :
    Recovered futures day st' :=
  ⟨h.held.of_same hsame, h.counted.of_positions hsame.positions, h.frozen.of_same hsame⟩

/-- The ledger within a bar: the positions of its symbol are not recounted yet. -/
structure RecoveredBar (futures : String → Bool) (event : SimulationBarEvent) (st : State) :
    Prop where
  held : Held futures (upTo event.bar.timestamp.date) st
  counted : Counted (fun symbol => symbol ≠ event.bar.symbol.code) event.bar.timestamp.date st
  frozen : FrozenBooks st

/-- No lot of another symbol matures with the bar. -/
def MaturesNothing (st : State) (event : SimulationBarEvent) : Prop :=
  ∀ position ∈ st.positions, position.symbol ≠ event.bar.symbol.code →
    position.maturedQuantity event.bar.timestamp.date = position.maturedQuantity st.clockDate

instance (st : State) (event : SimulationBarEvent) : Decidable (MaturesNothing st event) :=
  inferInstanceAs (Decidable (∀ position ∈ st.positions, position.symbol ≠ _ → _ = _))

theorem Recovered.keptDaily (futures : String → Bool) : KeptDaily moneyQuant
      (fun st target => target.Classified futures ∧ ExactReservation st target)
      (fun st event => Chronological st event ∧ MaturesNothing st event)
      (Recovered futures) (RecoveredBar futures) where
  close := fun day st order status reason hsound h hlisted hactive hends =>
    ⟨(Held.keptDaily moneyQuant futures).close day _ _ _ _ hsound h.held hlisted hactive hends,
      h.counted.closeOrder h.held hlisted hactive status reason,
      h.frozen.closeOrder hlisted status reason⟩
  books := fun _ _ _ hsame h => h.of_same hsame
  place := by
    intro day st decisionId now target placed hsound h hallowed hplaced
    obtain ⟨rule, hrule, hplacement⟩ := targetToOrder_placement hplaced
    exact ⟨h.held.placement hallowed.1 hplacement, h.counted.placement hplacement,
      h.frozen.placement hrule hallowed.2 hplacement⟩
  recover := fun st hsound h => h.of_same (h.recoverSession_books hsound)
  start := by
    intro st event _ h hlisted
    refine ⟨h.held.mono (daysUpTo hlisted.1), ?_, h.frozen⟩
    intro position hmem hcounts
    have hbefore := h.counted position hmem (Or.inl trivial)
    unfold Position.Full at hbefore ⊢
    obtain hother | hfutures := hcounts
    · rw [hbefore, hlisted.2 position hmem hother]
    · rw [hbefore]
      unfold Position.maturedQuantity
      rw [if_pos hfutures, if_pos hfutures]
  closeBar := fun event st order status reason hsound h hlisted hactive hends =>
    ⟨(Held.keptDaily moneyQuant futures).closeBar event _ _ _ _ hsound h.held hlisted hactive hends,
      h.counted.closeOrder h.held hlisted hactive status reason,
      h.frozen.closeOrder hlisted status reason⟩
  fillBar := fun event st order e hsound h hlisted hactive hfits htime =>
    ⟨(Held.keptDaily moneyQuant futures).fillBar event _ _ _ hsound h.held hlisted hactive hfits htime,
      h.counted.applyFill h.held hlisted hactive hfits (congrArg Timestamp.date htime.1),
      h.frozen.applyFill hlisted hactive hfits.quantity_pos⟩
  markBar := fun event st position rule hsound h hmem hsymbol hrule =>
    ⟨(Held.keptDaily moneyQuant futures).markBar event _ _ _ hsound h.held hmem hsymbol hrule,
      h.counted.markedState hmem hrule (not_not.mpr hsymbol),
      h.frozen.markedState position event.bar rule⟩
  booksBar := fun _ _ _ hsame h =>
    ⟨h.held.of_same hsame, h.counted.of_positions hsame.positions, h.frozen.of_same hsame⟩
  finish := by
    intro event st _ h hrefreshed
    refine ⟨h.held, ?_, h.frozen⟩
    intro position hmem _
    by_cases hfutures : position.instrumentType = .futures
    · exact h.counted position hmem (Or.inr hfutures)
    · by_cases hsymbol : position.symbol = event.bar.symbol.code
      · exact (hrefreshed position hmem hsymbol hfutures).full
          (h.held.backed position hmem).frozen_le_matured
      · exact h.counted position hmem (Or.inl hsymbol)

/-- The state without the number of its recoveries. -/
def State.uncounted (st : State) : State :=
  { st with session := { st.session with recoveryCount := 0 } }

theorem recoverPositions_idempotent (active : List Order) (today : Date) (positions : List Position) :
    recoverPositions active today (recoverPositions active today positions).1 =
      recoverPositions active today positions := by
  induction positions with
  | nil => rfl
  | cons position rest ih =>
    have hkey : ∀ frozenQuantity availableQuantity : ℚ,
        Position.key { position with frozenQuantity, availableQuantity } = position.key :=
      fun _ _ => rfl
    have hmatured : ∀ frozenQuantity availableQuantity : ℚ, Position.maturedQuantity
        { position with frozenQuantity, availableQuantity } today = position.maturedQuantity today :=
      fun _ _ => rfl
    simp only [recoverPositions]
    by_cases hshort : position.totalQuantity < total Order.reservedQuantity
        (active.filter fun order => order.key = position.key)
    · simp only [if_pos hshort, recoverPositions]
    · simp only [if_neg hshort, recoverPositions, hkey, hmatured, ih]

theorem failEvents_idempotent (events : List MarketEvent) :
    (events.map fun event => if event.status = .processing then { event with status := .failed }
      else event).map (fun event => if event.status = .processing then
        { event with status := .failed } else event) =
      events.map fun event => if event.status = .processing then { event with status := .failed }
        else event := by
  rw [List.map_map]
  apply List.map_congr_left
  intro event _
  by_cases hprocessing : event.status = .processing
  · simp [hprocessing]
  · simp [hprocessing]

theorem recoverSession_eq (hcovered : total Order.reservedCash st.activeOrders ≤
    st.account.cash + st.account.frozenCash) : (recoverSession money st).1 = revalueAccount money { st with
      account := { st.account with
        cash := st.account.cash + st.account.frozenCash - total Order.reservedCash st.activeOrders
        frozenCash := total Order.reservedCash st.activeOrders }
      session := { st.session with
        status := if (recoverPositions st.activeOrders st.clockDate st.positions).2 then .paused
          else st.session.status
        recoveryCount := st.session.recoveryCount + 1 }
      positions := (recoverPositions st.activeOrders st.clockDate st.positions).1
      marketEvents := st.marketEvents.map fun event =>
        if event.status = .processing then { event with status := .failed } else event } := by
  unfold recoverSession
  simp only [if_neg (not_lt.mpr hcovered)]

/-- A ledger that recovery would write again is only counted once more. -/
theorem recoverSession_of_settled {active : List Order} {today : Date}
    (hactive : st.activeOrders = active) (htoday : st.clockDate = today)
    (hcovered : total Order.reservedCash active ≤ st.account.cash + st.account.frozenCash)
    (hfrozen : st.account.frozenCash = total Order.reservedCash active)
    (hpositions : (recoverPositions active today st.positions).1 = st.positions)
    (hstatus : (recoverPositions active today st.positions).2 = true → st.session.status = .paused)
    (hevents : (st.marketEvents.map fun event => if event.status = .processing then
      { event with status := .failed } else event) = st.marketEvents)
    (hvalued : revalueAccount money st = st) :
    (recoverSession money st).1.uncounted = st.uncounted := by
  rw [← hactive] at hcovered
  have hkept : (if (recoverPositions active today st.positions).2 then SessionStatus.paused
      else st.session.status) = st.session.status := by
    by_cases hfailed : (recoverPositions active today st.positions).2 = true
    · rw [if_pos hfailed, hstatus hfailed]
    · rw [if_neg hfailed]
  have haccount := congrArg State.account hvalued
  rw [recoverSession_eq hcovered, hactive, htoday, hpositions, hkept, hevents, ← hfrozen,
    add_sub_cancel_right]
  exact congrArg (fun account : Account => State.uncounted { st with account }) haccount

theorem recoverSession_idempotent (money : ℚ → ℚ) (st : State) :
    (recoverSession money (recoverSession money st).1).1.uncounted =
      (recoverSession money st).1.uncounted := by
  obtain hshort | hcovered := lt_or_ge (st.account.cash + st.account.frozenCash)
    (total Order.reservedCash st.activeOrders)
  · have hpaused : (recoverSession money st).1 =
        { st with session := { st.session with status := .paused } } := by
      unfold recoverSession
      simp only [if_pos hshort]
    have hagain : (recoverSession money { st with session := { st.session with
        status := .paused } }).1 = { st with session := { st.session with status := .paused } } := by
      unfold recoverSession
      exact congrArg Prod.fst (if_pos hshort)
    rw [hpaused, hagain]
  · have hactive : (recoverSession money st).1.activeOrders = st.activeOrders := by
      rw [recoverSession_eq hcovered]
      rfl
    apply recoverSession_of_settled hactive (clockDate_congr (recoverSession_clock st))
    · rw [recoverSession_eq hcovered]
      simp only [revalueAccount, sub_add_cancel]
      exact hcovered
    · rw [recoverSession_eq hcovered]
      rfl
    · rw [recoverSession_eq hcovered]
      simp only [revalueAccount, recoverPositions_idempotent]
    · rw [recoverSession_eq hcovered]
      simp only [revalueAccount, recoverPositions_idempotent]
      exact fun hfailed => if_pos hfailed
    · rw [recoverSession_eq hcovered]
      exact failEvents_idempotent st.marketEvents
    · rw [recoverSession_eq hcovered]
      rfl

/-- A second recovery leaves what the first one left. -/
theorem recoverActiveSessions_idempotent (money : ℚ → ℚ) (st : State) :
    (recoverActiveSessions money (recoverActiveSessions money st).1).1.uncounted =
      (recoverActiveSessions money st).1.uncounted := by
  unfold recoverActiveSessions
  by_cases hlive : st.session.status = .running ∨ st.session.status = .paused
  · simp only [if_pos hlive]
    split_ifs
    · exact recoverSession_idempotent money st
    · rfl
  · simp only [if_neg hlive]

/-- The calls in which accepted opening orders reserve whole units, every symbol is traded either
as a security or as a contract, and a bar comes in the order of the dates and lets no lot of
another symbol mature. -/
def Steady (futures : String → Bool) : State → Action → Prop :=
  Action.Meets moneyQuant (fun st target => target.Classified futures ∧ ExactReservation st target)
    fun st event => Chronological st event ∧ MaturesNothing st event

/-- A purchase that matures with the bar of another stock. -/
def staleRun : List Action :=
  [.transitionSession .running,
   .processBar (flatBar "E1" "600000" .aShare ⟨1, 0, 0⟩ 10 ten_pos),
   .submitDecision (singleDecision "D-1" (securityTarget "600000" "a_share_stock" .stock 1000
     thousand_nonneg)) ⟨1, 0, 0⟩,
   .processBar (flatBar "E2" "600000" .aShare ⟨2, 0, 0⟩ 10 ten_pos),
   .processBar (flatBar "E3" "600001" .aShare ⟨3, 0, 0⟩ 10 ten_pos)]

/-- A run without a restart. -/
def NoRestart (_ : State) : Action → Prop
  | .recoverActiveSessions => False
  | _ => True

/-- The closing orders of some position reserve more than it holds. -/
def Overreserved (st : State) : Prop :=
  ∃ position ∈ st.positions, position.totalQuantity <
    total Order.reservedQuantity (st.activeOrders.filter fun order => order.key = position.key)

instance (st : State) : Decidable (Overreserved st) :=
  inferInstanceAs (Decidable (∃ position ∈ st.positions, _ < _))

/-- The loop over the positions meets one that is overreserved. -/
theorem recoverPositions_failed {active : List Order} {today : Date} {positions : List Position} :
    (recoverPositions active today positions).2 = true ↔ ∃ position ∈ positions, position.totalQuantity <
        total Order.reservedQuantity (active.filter fun order => order.key = position.key) := by
  induction positions with
  | nil => simp [recoverPositions]
  | cons position rest ih =>
    rw [List.exists_mem_cons_iff]
    unfold recoverPositions
    by_cases short : position.totalQuantity <
        total Order.reservedQuantity (active.filter fun order => order.key = position.key)
    · simp [short]
    · simp only [short, if_false, ih, false_or]

/-- Only the loop over the positions is left, not the recovery of the session: an overreserved session
is paused, and it is left as it was stored and unreported exactly if it was not active or if its cash
does not cover what its orders reserve. -/
theorem overreserved_untouched_iff (money : ℚ → ℚ) {st : State} (overreserved : Overreserved st) :
    (((recoverActiveSessions money st).1.account = st.account ∧
        (recoverActiveSessions money st).1.positions = st.positions ∧
        (recoverActiveSessions money st).2 = false) ↔
      ¬(st.session.status = .running ∨ st.session.status = .paused) ∨
        st.account.cash + st.account.frozenCash < total Order.reservedCash st.activeOrders) ∧
      (recoverActiveSessions money st).1.session.status ≠ .running := by
  have failed : (recoverPositions st.activeOrders st.clockDate st.positions).2 = true :=
    recoverPositions_failed.mpr overreserved
  unfold recoverActiveSessions
  by_cases active : st.session.status = .running ∨ st.session.status = .paused
  · rw [if_pos active]
    unfold recoverSession
    by_cases short : st.account.cash + st.account.frozenCash <
        total Order.reservedCash st.activeOrders
    · simp [short]
    · simp [short, active, failed, revalueAccount]
  · rw [if_neg active]
    have stopped : st.session.status ≠ .running := fun running => active (Or.inl running)
    exact ⟨iff_of_true ⟨rfl, rfl, rfl⟩ (Or.inl active), stopped⟩

/-- A sale of 600 is open while the stored position has lost shares. -/
def overreservedSession : State :=
  let st := runCalls moneyQuant (sampleSession moneyQuant) (tradingRun.take 6)
  { st with positions := st.positions.map fun position => { position with totalQuantity := 500 } }

theorem overreserved_untouched_iff_sample : Overreserved overreservedSession ∧
      (recoverActiveSessions moneyQuant overreservedSession).1.session.status ≠ .running := by
  have overreserved : Overreserved overreservedSession := by decide +kernel
  exact ⟨overreserved, (overreserved_untouched_iff moneyQuant overreserved).2⟩

/-- The session is reported as recovered. -/
theorem overreserved_reported : ¬∀ (money : ℚ → ℚ) (st : State), Overreserved st →
    (recoverActiveSessions money st).1.account = st.account ∧
      (recoverActiveSessions money st).1.positions = st.positions ∧
      (recoverActiveSessions money st).2 = false := by
  intro untouched
  have unreported := (untouched moneyQuant overreservedSession (by decide +kernel)).2.2
  revert unreported
  decide +kernel

end FinDashboard.Simulation
