import FinDashboard.Simulation.Held

/-!
# The holdings over a run

Every call keeps the agreement of orders and positions, as long as each symbol is traded
either as a security or as a contract.
-/

namespace FinDashboard.Simulation

open Ledger List

variable {money : ℚ → ℚ} {futures : String → Bool} {days : Date → Bool} {st st' : State}
  {order : Order} {position : Position} {e : Execution}

theorem Position.Backed.marked (h : position.Backed futures days) (e : Execution) :
    (position.marked money e).Backed futures days := by
  unfold Position.marked
  split_ifs
  · exact h.congr rfl rfl rfl rfl rfl rfl
  · exact h.congr rfl rfl rfl rfl rfl rfl

theorem marked_frozenQuantity (position : Position) (e : Execution) :
    (position.marked money e).frozenQuantity = position.frozenQuantity := by
  unfold Position.marked
  split_ifs <;> rfl

/-- What a settled fill leaves agrees again. -/
structure SettledRows (futures : String → Bool) (days : Date → Bool) (st : State) (order : Order)
    (e : Execution) (order' : Order) (position' : Position) : Prop where
  terms : order.SameTerms order'
  reserves : order'.isActive = true → order'.Reserves
  key : position'.key = order.key
  backed : position'.Backed futures days
  frozen : position'.frozenQuantity =
    (filledPosition st order e).frozenQuantity + (order'.holding - order.holding)

variable {rows : FillRows}

theorem Held.settles_nothing (h : Held futures days st) (hlisted : st.Listed order)
    (hactive : order.isActive = true) (hfits : e.Fits order)
    (htoday : ∀ day, day ≤ e.filledAt.date → days day = true)
    (hbook : bookRows money (fillRows st order e) e = (rows, none)) :
    rows.order.remaining = order.remaining ∧
      (¬e.quantity < order.remaining → rows.order.reservedQuantity = 0) := by
  have hquantity := hfits.quantity_le
  obtain ⟨hterms, -⟩ := bookRows_terms hbook
  obtain ⟨hprogress, -⟩ := bookRows_progress hbook
  obtain ⟨-, hopened, hclosed⟩ := h.bookRows_booked hlisted hactive hfits htoday hbook
  constructor
  · unfold Order.remaining
    rw [hterms.quantity, hprogress, fillRows_order]
  · intro hdone
    cases heffect : order.positionEffect with
    | «open» => exact (hopened heffect).1
    | close =>
      rw [(hclosed heffect).1]
      linarith

theorem Held.settledPosition_eq (h : Held futures days st) (hlisted : st.Listed order)
    (hactive : order.isActive = true) (hfits : e.Fits order)
    (htoday : ∀ day, day ≤ e.filledAt.date → days day = true)
    (hbook : bookRows money (fillRows st order e) e = (rows, none)) :
    settledPosition money rows e = rows.position.marked money e ∧
      (settledOrder money rows e).reservedQuantity = rows.order.reservedQuantity := by
  obtain ⟨hremaining, hfull⟩ := h.settles_nothing hlisted hactive hfits htoday hbook
  apply settled_of_nothing
  rw [hremaining]
  by_cases hleft : e.quantity < order.remaining
  · exact Or.inr hleft
  · exact Or.inl (hfull hleft).le

theorem Held.settled (h : Held futures days st) (hlisted : st.Listed order)
    (hactive : order.isActive = true) (hfits : e.Fits order)
    (htoday : ∀ day, day ≤ e.filledAt.date → days day = true)
    (hbook : bookRows money (fillRows st order e) e = (rows, none)) :
    SettledRows futures days st order e (settledOrder money rows e) (settledPosition money rows e) := by
  have hreserves := h.reserves order hlisted.mem hactive
  have hquantity := hfits.quantity_le
  obtain ⟨hterms, hrowsKey⟩ := bookRows_terms hbook
  obtain ⟨hprogress, -⟩ := bookRows_progress hbook
  obtain ⟨hbacked, hopened, hclosed⟩ := h.bookRows_booked hlisted hactive hfits htoday hbook
  obtain ⟨hremaining, hfull⟩ := h.settles_nothing hlisted hactive hfits htoday hbook
  obtain ⟨hposition, hreserved⟩ := h.settledPosition_eq hlisted hactive hfits htoday hbook
  have hsettledTerms := hterms.trans (settledOrder_terms money rows e)
  have hsettledRemaining : (settledOrder money rows e).remaining = order.remaining - e.quantity := by
    unfold Order.remaining
    rw [hsettledTerms.quantity, settledOrder_filledQuantity, hprogress, fillRows_order]
    ring
  have hholding : (settledOrder money rows e).holding = rows.order.reservedQuantity := by
    unfold Order.holding
    by_cases hlive : (settledOrder money rows e).isActive = true
    · rw [if_pos hlive, hreserved]
    · rw [if_neg hlive]
      rw [settledOrder_isActive, hremaining] at hlive
      exact (hfull hlive).symm
  refine ⟨hsettledTerms, fun _ => ⟨?_, ?_, ?_⟩, ?_, ?_, ?_⟩
  · rw [hsettledRemaining]
    linarith
  · intro heffect
    rw [hsettledTerms.positionEffect] at heffect
    rw [hreserved]
    exact (hopened heffect).1
  · intro heffect
    rw [hsettledTerms.positionEffect] at heffect
    rw [hreserved, hsettledRemaining]
    exact (hclosed heffect).1
  · obtain ⟨-, hkey⟩ := ensurePosition_spec st order e.fillPrice
    rw [settledPosition_key, hrowsKey]
    exact hkey
  · rw [hposition]
    exact hbacked.marked e
  · rw [hposition, marked_frozenQuantity, hholding, holding_of_active hactive]
    cases heffect : order.positionEffect with
    | «open» =>
      rw [(hopened heffect).1, (hopened heffect).2, hreserves.opening heffect]
      ring
    | close =>
      rw [(hclosed heffect).1, (hclosed heffect).2, hreserves.closing heffect]
      ring

theorem Held.failed_rows (h : Held futures days st) (hlisted : st.Listed order)
    (hactive : order.isActive = true) (hfits : e.Fits order)
    (htoday : ∀ day, day ≤ e.filledAt.date → days day = true) {error : SimulationRiskError}
    (hbook : bookRows money (fillRows st order e) e = (rows, some error)) :
    order.positionEffect = .open ∧ rows = fillRows st order e := by
  unfold bookRows at hbook
  cases heffect : order.positionEffect with
  | «open» =>
    simp only [fillRows_order, heffect] at hbook
    exact ⟨rfl, openFill_failed hbook⟩
  | close =>
    simp only [fillRows_order, heffect] at hbook
    obtain ⟨sold, hsold, -⟩ := h.closeFill_sold money hlisted hactive hfits heffect htoday
    rw [hsold] at hbook
    cases (Prod.mk.inj hbook).2

theorem Held.applyFill (h : Held futures days st) (hlisted : st.Listed order)
    (hactive : order.isActive = true) (hfits : e.Fits order)
    (htoday : ∀ day, day ≤ e.filledAt.date → days day = true) :
    Held futures days (applyFill money st order e).state := by
  have hensured := h.ensurePosition hlisted.mem e.fillPrice
  have horders : (Simulation.ensurePosition st order e.fillPrice).1.orders = st.orders := by
    rw [ensurePosition_eq]
  have hlisted' : (Simulation.ensurePosition st order e.fillPrice).1.Listed order := by
    unfold State.Listed
    rw [horders]
    exact hlisted
  obtain ⟨hbacked, hfrozen⟩ := h.filledPosition_backed (e := e) hlisted
  have hstep : FillStep money st order e _ := applyFill_step st order e
  generalize Simulation.applyFill money st order e = result at hstep ⊢
  cases hstep with
  | known existing => exact h
  | @failed rows error hbook =>
    have hkey : (fillRows st order e).position.key = order.key :=
      (ensurePosition_spec st order e.fillPrice).2
    rw [(h.failed_rows hlisted hactive hfits htoday hbook).2]
    apply hensured.rewrite hlisted' (.refl order) (fun _ => h.reserves order hlisted.mem hactive)
      (fun _ => hactive) rfl map_key_overwrite
    intro position hmem
    obtain rfl | ⟨hold, hne⟩ := mem_overwrite hmem
    · right
      refine ⟨hkey, hbacked, ?_⟩
      rw [horders, sub_self, add_zero]
      exact hfrozen
    · left
      rw [hkey] at hne
      exact ⟨hold, hne⟩
  | @booked rows hbook =>
    have hsettled := h.settled hlisted hactive hfits htoday hbook
    rw [settleFill_eq]
    apply hensured.rewrite hlisted' hsettled.terms hsettled.reserves (fun _ => hactive)
    · simp only [revalueAccount, hsettled.terms.orderId]
    · exact map_key_overwrite
    · intro position hmem
      obtain rfl | ⟨hold, hne⟩ := mem_overwrite hmem
      · right
        refine ⟨hsettled.key, hsettled.backed, ?_⟩
        rw [horders, hsettled.frozen, hfrozen]
      · left
        rw [hsettled.key] at hne
        exact ⟨hold, hne⟩

/-- The fields of a position that marking and settling leave alone. -/
structure Position.SameHolding (position position' : Position) : Prop where
  symbol : position'.symbol = position.symbol
  instrumentType : position'.instrumentType = position.instrumentType
  key : position'.key = position.key
  frozenQuantity : position'.frozenQuantity = position.frozenQuantity
  totalQuantity : position'.totalQuantity = position.totalQuantity
  lots : position'.lots = position.lots

variable (money) in
theorem markedState_cases (st : State) (position : Position) (bar : Bar) (rule : SimulationAssetRule) :
    ∃ position', position.SameHolding position' ∧
      (rule.isFutures = true ∧ position'.availableQuantity = position.availableQuantity ∨
        rule.isFutures = false ∧ position'.availableQuantity =
          max 0 (position.maturedQuantity bar.timestamp.date - position.frozenQuantity)) ∧
      (markedState money st position bar rule).orders = st.orders ∧
      (markedState money st position bar rule).positions =
        overwrite Position.key position' st.positions := by
  unfold markedState settleFuture
  by_cases hfutures : rule.isFutures = true
  · rw [if_pos hfutures]
    by_cases hsettled : position.lastSettlementDate = some bar.timestamp.date
    · rw [if_pos hsettled]
      exact ⟨{ position with lastPrice := bar.close }, ⟨rfl, rfl, rfl, rfl, rfl, rfl⟩,
        Or.inl ⟨hfutures, rfl⟩, rfl, rfl⟩
    · rw [if_neg hsettled]
      refine ⟨_, ?_, Or.inl ⟨hfutures, ?_⟩, rfl, rfl⟩
      · exact ⟨rfl, rfl, rfl, rfl, rfl, rfl⟩
      · rfl
  · rw [if_neg hfutures]
    exact ⟨position.markedToMarket money bar, ⟨rfl, rfl, rfl, rfl, rfl, rfl⟩,
      Or.inr ⟨Bool.eq_false_iff.mpr hfutures, rfl⟩, rfl, rfl⟩

theorem Held.markedState (h : Held futures days st) {bar : Bar} (hmem : position ∈ st.positions)
    (htoday : ∀ day, day ≤ bar.timestamp.date → days day = true) (rule : SimulationAssetRule) :
    Held futures days (markedState money st position bar rule) := by
  have hbacked := h.backed position hmem
  obtain ⟨position', hsame, havailable, horders, hpositions⟩ :=
    markedState_cases money st position bar rule
  have hcapacity : position'.capacity days = position.capacity days := by
    unfold Position.capacity
    rw [hsame.instrumentType, hsame.totalQuantity, hsame.lots]
  have hbacked' : position'.Backed futures days := by
    constructor
    · rw [hsame.instrumentType, hsame.symbol]
      exact hbacked.futures_iff
    · obtain ⟨-, heq⟩ | ⟨-, heq⟩ := havailable
      · rw [heq]
        exact hbacked.available_nonneg
      · rw [heq]
        exact le_max_left _ _
    · rw [hsame.frozenQuantity]
      exact hbacked.frozen_nonneg
    · rw [hsame.frozenQuantity, hcapacity]
      obtain ⟨-, heq⟩ | ⟨-, heq⟩ := havailable
      · rw [heq]
        exact hbacked.covered
      · rw [heq]
        exact available_add_le (maturedQuantity_le hbacked.lots_pos htoday) hbacked.frozen_le_capacity
    · rw [hsame.lots]
      exact hbacked.lots_pos
    · rw [hsame.instrumentType, hsame.lots, hsame.totalQuantity]
      exact hbacked.lots_total
  have hpositions' : ∀ other ∈ overwrite Position.key position' st.positions,
      other = position' ∨ other ∈ st.positions := by
    intro other hother
    obtain heq | ⟨hold, -⟩ := mem_overwrite hother
    · exact Or.inl heq
    · exact Or.inr hold
  constructor
  · rw [horders]
    exact h.futures_iff
  · rw [horders]
    exact h.reserves
  · intro other hother hactive heffect
    rw [horders] at hother
    rw [hpositions]
    exact exists_key_overwrite (h.positioned other hother hactive heffect)
  · rw [hpositions]
    intro other hother
    obtain rfl | hold := hpositions' other hother
    · exact hbacked'
    · exact h.backed other hold
  · rw [hpositions, horders]
    intro other hother
    obtain rfl | hold := hpositions' other hother
    · rw [hsame.frozenQuantity, hsame.key]
      exact h.frozen position hmem
    · exact h.frozen other hold

/-- A target is traded as its symbol is. -/
def SimulationTarget.Classified (futures : String → Bool) (target : SimulationTarget) : Prop :=
  target.instrumentType = .futures ↔ futures target.symbol = true

theorem Held.placement {decisionId : String} {target : SimulationTarget} {rule : SimulationAssetRule}
    {placed : Option Order} (h : Held futures days st) (hclass : target.Classified futures)
    (hplaced : Placement money st decisionId target rule st' placed) : Held futures days st' := by
  cases hplaced with
  | satisfied _ => exact h
  | refused effect quantity eligibleAfter reason message =>
    have hended : (refusedRow st decisionId target effect quantity eligibleAfter reason
        message).isActive = false := rfl
    refine h.add ?_ ?_ ?_ (st.addOrder_orders _) rfl ?_
    · exact hclass
    · intro hactive
      exact absurd (hended.symm.trans hactive) Bool.false_ne_true
    · intro hactive
      exact absurd (hended.symm.trans hactive) Bool.false_ne_true
    · intro position hmem
      exact Or.inl ⟨hmem, fun _ => holding_of_ended hended⟩
  | @opened terms hterms hdemand heffect hadmits hshort =>
    have hremaining : (acceptedRow st decisionId target terms
        (money (requiredCash st.session.config rule terms.notional)) 0).remaining = terms.quantity :=
      sub_zero _
    refine h.add ?_ ?_ ?_ (State.addOrder_orders _ _) rfl ?_
    · exact hclass
    · intro _
      refine ⟨?_, fun _ => rfl, fun hclose => ?_⟩
      · rw [hremaining]
        exact hterms.quantity_pos.le
      · exact absurd (heffect.symm.trans hclose) (by simp)
    · intro _ hclose
      exact absurd (heffect.symm.trans hclose) (by simp)
    · intro position hmem
      exact Or.inl ⟨hmem, fun _ => rfl⟩
  | @closed terms position hterms heffect hroom hposition havailable =>
    obtain ⟨hmem, hkey⟩ := mem_of_getPosition hposition
    have hbacked := h.backed position hmem
    have hquantity := hterms.quantity_pos
    have hcovered := hbacked.covered
    have hfrozen := hbacked.frozen_nonneg
    have hremaining : (acceptedRow st decisionId target terms 0 terms.quantity).remaining =
        terms.quantity := sub_zero _
    refine h.add ?_ ?_ ?_ (State.addOrder_orders _ _) map_key_overwrite ?_
    · exact hclass
    · intro _
      refine ⟨?_, fun hopen => ?_, fun _ => hremaining.symm⟩
      · rw [hremaining]
        exact hterms.quantity_pos.le
      · exact absurd (heffect.symm.trans hopen) (by simp)
    · intro _ _
      exact ⟨position, hmem, hkey⟩
    · intro other hother
      obtain rfl | ⟨hold, hne⟩ := mem_overwrite hother
      · right
        refine ⟨hkey, ⟨hbacked.futures_iff, sub_nonneg.mpr havailable, ?_, ?_, hbacked.lots_pos,
          hbacked.lots_total⟩, ?_⟩
        · simp only [Position.reserved]
          linarith
        · change position.availableQuantity - terms.quantity +
            (position.frozenQuantity + terms.quantity) ≤ position.capacity days
          linarith
        · change position.frozenQuantity + terms.quantity = reservedOf st.orders target.key +
            terms.quantity
          rw [h.frozen position hmem, hkey]
      · left
        exact ⟨hold, fun heq => absurd (heq.trans hkey.symm) hne⟩

def Position.recovered (position : Position) (reserved : ℚ) (today : Date) : Position :=
  { position with
    frozenQuantity := reserved
    availableQuantity := max 0 (position.maturedQuantity today - reserved) }

theorem recoverPositions_eq {active : List Order} {today : Date} {positions : List Position}
    (h : ∀ position ∈ positions, total Order.reservedQuantity
      (active.filter fun order => order.key = position.key) ≤ position.totalQuantity) :
    recoverPositions active today positions = (positions.map fun position =>
      position.recovered (total Order.reservedQuantity
        (active.filter fun order => order.key = position.key)) today, false) := by
  induction positions with
  | nil => rfl
  | cons position rest ih =>
    have hrest := ih fun other hother => h other (mem_cons_of_mem _ hother)
    have hfirst := not_lt.mpr (h position mem_cons_self)
    rw [recoverPositions]
    simp only [if_neg hfirst, hrest]
    rfl

theorem Held.recovered_positions (h : Held futures days st) (hsound : Sound st) :
    recoverPositions st.activeOrders st.clockDate st.positions = (st.positions.map fun position =>
        position.recovered position.frozenQuantity st.clockDate, false) := by
  have hreserved : ∀ position ∈ st.positions, total Order.reservedQuantity
      (st.activeOrders.filter fun order => order.key = position.key) = position.frozenQuantity := by
    intro position hmem
    rw [hsound.activeOrders_eq, reservedOf_eq_total, h.frozen position hmem]
  rw [recoverPositions_eq]
  · congr 1
    apply map_congr_left
    intro position hmem
    rw [hreserved position hmem]
  · intro position hmem
    rw [hreserved position hmem]
    exact (h.backed position hmem).frozen_le

theorem Held.recoverSession (h : Held futures days st) (hsound : Sound st)
    (htoday : ∀ day, day ≤ st.clockDate → days day = true) :
    Held futures days (recoverSession money st).1 := by
  unfold Simulation.recoverSession
  simp only
  by_cases hshort : st.account.cash + st.account.frozenCash < total Order.reservedCash st.activeOrders
  · rw [if_pos hshort]
    exact h.of_same ⟨rfl, rfl, rfl, Or.inl rfl, rfl, rfl, rfl, rfl⟩
  · rw [if_neg hshort]
    have hrecovered := h.recovered_positions hsound
    refine ⟨h.futures_iff, h.reserves, ?_, ?_, ?_⟩
    · intro order hmem hactive heffect
      obtain ⟨position, hposition, hkey⟩ := h.positioned order hmem hactive heffect
      simp only [revalueAccount, hrecovered]
      exact ⟨_, mem_map.mpr ⟨position, hposition, rfl⟩, hkey⟩
    · intro position hmem
      simp only [revalueAccount, hrecovered] at hmem
      obtain ⟨old, hold, rfl⟩ := mem_map.mp hmem
      have hbacked := h.backed old hold
      refine ⟨hbacked.futures_iff, le_max_left _ _, hbacked.frozen_nonneg, ?_, hbacked.lots_pos,
        hbacked.lots_total⟩
      exact available_add_le (maturedQuantity_le hbacked.lots_pos htoday) hbacked.frozen_le_capacity
    · intro position hmem
      simp only [revalueAccount, hrecovered] at hmem
      obtain ⟨old, hold, rfl⟩ := mem_map.mp hmem
      exact h.frozen old hold

theorem Held.opened (h : Opened money st) : Held futures days st := by
  cases h with
  | mk haccount validationRunId config signalTraces => constructor <;> exact fun _ hmem => by cases hmem

end FinDashboard.Simulation
