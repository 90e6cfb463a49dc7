import FinDashboard.Simulation.Maturity

/-!
# Sales wait for their lots

Every call keeps the agreement of the fills of the day and the immature lots, as long as on
every bar what is frozen of the bar's symbol is covered by the front of the lots.
-/

namespace FinDashboard.Simulation

open Ledger List

variable {money : ℚ → ℚ} {futures : String → Bool} {day : Date} {days : Date → Bool}
  {st st' : State} {order order' : Order} {position : Position} {e : Execution} {bar : Bar}

theorem exists_of_map_key (hkeys : st'.positions.map Position.key = st.positions.map Position.key) :
    ∀ position ∈ st.positions, ∃ other ∈ st'.positions, other.key = position.key := by
  intro position hmem
  have hthere : position.key ∈ st'.positions.map Position.key := by
    rw [hkeys]
    exact mem_map.mpr ⟨position, hmem, rfl⟩
  exact mem_map.mp hthere

theorem releaseQuantity_lots (position : Position) (order : Order) :
    (releaseQuantity position order).1.lots = position.lots := by
  unfold releaseQuantity
  split_ifs <;> rfl

namespace Dated

theorem of_same (h : Dated day st) (hsame : SameBooks st st') : Dated day st' := by
  apply h.of_rows hsame.fills
  · intro fill _
    rw [hsame.orders]
  · rw [hsame.orders]
  · rw [hsame.positions]
    exact fun position hmem => ⟨position, hmem, rfl⟩
  · rw [hsame.positions]
    exact fun position hmem => ⟨position, hmem, rfl, rfl⟩

theorem closeOrder (h : Dated day st) (hlisted : st.Listed order) (status : OrderStatus)
    (reason : Reason) : Dated day (closeOrder st order status reason) := by
  have horders := closeOrder_orders st order status reason
  apply h.of_rows (closeOrder_fills st order status reason)
  · intro fill _
    rw [horders]
    exact enforcesTPlus1_set hlisted (endedOrder_terms st order status reason) fill.orderId
  · rw [horders, length_set]
  · exact exists_of_map_key (closeOrder_positions_keys st order status reason)
  · intro position hmem
    obtain ⟨hold, -⟩ | ⟨old, hold, -, rfl⟩ :=
      closeOrder_positions st order status reason position hmem
    · exact ⟨position, hold, rfl, rfl⟩
    · exact ⟨old, hold, (releaseQuantity_key old order).symm, (releaseQuantity_lots old order).symm⟩

theorem overwritten {position' : Position} (h : Dated day st) (hmem : position ∈ st.positions)
    (hkey : position'.key = position.key) (hlots : position'.lots = position.lots)
    (hfills : st'.fills = st.fills) (horders : st'.orders = st.orders)
    (hpositions : st'.positions = overwrite Position.key position' st.positions) : Dated day st' := by
  apply h.of_rows hfills
  · intro fill _
    rw [horders]
  · rw [horders]
  · apply exists_of_map_key
    rw [hpositions]
    exact map_key_overwrite
  · rw [hpositions]
    intro other hother
    obtain rfl | ⟨hold, -⟩ := mem_overwrite hother
    · exact ⟨position, hmem, hkey.symm, hlots.symm⟩
    · exact ⟨other, hold, rfl, rfl⟩

theorem markedState (h : Dated day st) (hmem : position ∈ st.positions)
    (rule : SimulationAssetRule) : Dated day (markedState money st position bar rule) := by
  obtain ⟨position', hsame, -, horders, hpositions⟩ := markedState_cases money st position bar rule
  exact h.overwritten hmem hsame.key hsame.lots (markedState_frame money st position bar rule).fills
    horders hpositions

theorem addOrder (h : Dated day st) (order : Order) : Dated day (st.addOrder order) := by
  apply h.of_rows
  · rfl
  · intro fill hfill
    rw [State.addOrder_orders, List.getElem?_append_left (h.ordered fill hfill)]
  · rw [State.addOrder_orders, length_append]
    exact Nat.le_add_right _ _
  · exact fun position hmem => ⟨position, hmem, rfl⟩
  · exact fun position hmem => ⟨position, hmem, rfl, rfl⟩

theorem placement {decisionId : String} {target : SimulationTarget} {rule : SimulationAssetRule}
    {placed : Option Order} (h : Dated day st)
    (hplaced : Placement money st decisionId target rule st' placed) : Dated day st' := by
  cases hplaced with
  | satisfied _ => exact h
  | refused effect quantity eligibleAfter reason message => exact h.addOrder _
  | opened hterms hdemand heffect hadmits hshort =>
    apply addOrder
    exact h.of_rows rfl (fun _ _ => rfl) (le_refl _) (fun position hmem => ⟨position, hmem, rfl⟩)
      fun position hmem => ⟨position, hmem, rfl, rfl⟩
  | @closed terms position hterms heffect hroom hposition havailable =>
    apply addOrder
    have hkey : (position.reserved terms.quantity).key = position.key := rfl
    exact h.overwritten (mem_of_getPosition hposition).1 hkey rfl rfl rfl rfl

theorem recoverSession (h : Dated day st) (hheld : Held futures days st) (hsound : Sound st) :
    Dated day (recoverSession money st).1 := by
  unfold Simulation.recoverSession
  simp only
  by_cases hshort : st.account.cash + st.account.frozenCash < total Order.reservedCash st.activeOrders
  · rw [if_pos hshort]
    exact h.of_same ⟨rfl, rfl, rfl, Or.inl rfl, rfl, rfl, rfl, rfl⟩
  · rw [if_neg hshort]
    have hrecovered := hheld.recovered_positions hsound
    apply h.of_rows
    · rfl
    · exact fun _ _ => rfl
    · exact le_refl _
    · intro position hmem
      simp only [revalueAccount, hrecovered]
      exact ⟨_, mem_map.mpr ⟨position, hmem, rfl⟩, rfl⟩
    · intro position hmem
      simp only [revalueAccount, hrecovered] at hmem
      obtain ⟨old, hold, rfl⟩ := mem_map.mp hmem
      exact ⟨old, hold, rfl, rfl⟩

theorem opened (h : Opened money st) : Dated day st := by
  cases h with
  | mk haccount validationRunId config signalTraces =>
    constructor <;> exact fun _ hmem => by cases hmem

end Dated

theorem Dated.ensurePosition (h : Dated day st) (order : Order) (price : ℚ) :
    Dated day (ensurePosition st order price).1 := by
  obtain ⟨position, -, heq⟩ | ⟨hnone, heq⟩ := ensurePosition_cases st order price
  · rw [heq]
    exact h
  · rw [heq]
    have hnothing : st.boughtUnderTPlus1 (emptyPosition order price).key day = 0 := by
      unfold State.boughtUnderTPlus1
      rw [filter_eq_nil_iff.mpr]
      · rfl
      · intro fill hfill hbought
        obtain ⟨other, hother, hkey⟩ := h.positioned fill hfill
        have hthis := (of_decide_eq_true hbought).1
        exact key_ne_of_getPosition hnone other hother (hkey.trans hthis)
    refine ⟨?_, ?_, h.past, h.ordered, ?_⟩
    · intro position hmem
      obtain rfl | hold := mem_addPosition.mp hmem
      · exact hnothing.symm
      · exact h.kept position hold
    · intro position hmem
      obtain rfl | hold := mem_addPosition.mp hmem
      · intro lot hlot
        cases hlot
      · exact h.horizon position hold
    · intro fill hfill
      obtain ⟨position, hold, hkey⟩ := h.positioned fill hfill
      exact ⟨position, mem_addPosition.mpr (Or.inr hold), hkey⟩

/-- What a fill adds to the purchases of the day. -/
theorem boughtUnderTPlus1_fill (hlisted : st.Listed order) (hterms : order.SameTerms order')
    (hfills : st'.fills = st.fills ++ [fillRow money order e])
    (horders : st'.orders = st.orders.set order.orderId order') (key : String × PositionSide) :
    st'.boughtUnderTPlus1 key day = st.boughtUnderTPlus1 key day +
      if order.key = key ∧ order.positionEffect = .open ∧ e.filledAt.date = day ∧
        order.enforcesTPlus1 = true then e.quantity else 0 := by
  have hrules : ∀ orderId : ℕ, (st'.orders[orderId]?).any Order.enforcesTPlus1 =
      (st.orders[orderId]?).any Order.enforcesTPlus1 := by
    intro orderId
    rw [horders]
    exact enforcesTPlus1_set hlisted hterms orderId
  have hold : st.fills.filter (fun fill => st'.TPlus1Purchase key day fill) =
      st.fills.filter fun fill => st.TPlus1Purchase key day fill := by
    apply filter_congr
    intro fill _
    apply decide_eq_decide.mpr
    unfold State.TPlus1Purchase
    rw [hrules]
  have hnew : st'.TPlus1Purchase key day (fillRow money order e) ↔ order.key = key ∧
      order.positionEffect = .open ∧ e.filledAt.date = day ∧ order.enforcesTPlus1 = true := by
    have hthis : (st.orders[order.orderId]?).any Order.enforcesTPlus1 = order.enforcesTPlus1 := by
      unfold State.Listed at hlisted
      rw [hlisted]
      rfl
    unfold State.TPlus1Purchase
    rw [hrules]
    simp only [fillRow, hthis]
    rfl
  unfold State.boughtUnderTPlus1
  rw [hfills, filter_append, total_append, hold]
  congr 1
  have hquantity : (fillRow money order e).quantity = e.quantity := rfl
  by_cases hpurchase : st'.TPlus1Purchase key day (fillRow money order e)
  · rw [if_pos (hnew.mp hpurchase)]
    simp [hpurchase, hquantity]
  · rw [if_neg fun hthis => hpurchase (hnew.mpr hthis)]
    simp [hpurchase]

/-- What an order's rule says of the day a purchase may be sold. -/
theorem availableOn_eq (hfits : e.Fits order) :
    e.availableOn = if order.enforcesTPlus1 then e.filledAt.date + 1 else e.filledAt.date := by
  unfold Execution.availableOn Order.enforcesTPlus1
  rw [hfits.rule]

/-- What is frozen of the positions of a symbol is covered by the front of their lots. -/
def SalesMature (symbol : String) (day : Date) (st : State) : Prop :=
  ∀ position ∈ st.positions, position.symbol = symbol →
    position.frozenQuantity ≤ front position.lots day

/-- What a booked fill leaves of the lots. -/
structure FilledLots (day : Date) (order : Order) (e : Execution) (position position' : Position) :
    Prop where
  kept : immature position'.lots day = immature position.lots day +
    if order.positionEffect = .open ∧ order.enforcesTPlus1 = true then e.quantity else 0
  horizon : ∀ lot ∈ position'.lots, lot.availableOn ≤ day + 1
  covered : position'.frozenQuantity ≤ front position'.lots day

theorem Held.filled_lots (h : Held (fun _ => false) days st) (hlisted : st.Listed order)
    (hactive : order.isActive = true) (hfits : e.Fits order) (hday : e.filledAt.date = day)
    (htoday : ∀ other, other ≤ day → days other = true) {rows : FillRows}
    (hhorizon : ∀ lot ∈ (filledPosition st order e).lots, lot.availableOn ≤ day + 1)
    (hcovered : (filledPosition st order e).frozenQuantity ≤ front (filledPosition st order e).lots day)
    (hbook : bookRows money (fillRows st order e) e = (rows, none)) :
    FilledLots day order e (filledPosition st order e) (settledPosition money rows e) := by
  rw [← hday] at htoday
  obtain ⟨hbacked, -⟩ := h.filledPosition_backed (e := e) hlisted
  have hsecurity : (filledPosition st order e).instrumentType ≠ .futures := by
    rw [ne_eq, hbacked.futures_iff]
    exact Bool.false_ne_true
  have hlots := h.booked_lots hlisted hfits hsecurity hbook
  obtain ⟨-, hopened, hclosed⟩ := h.bookRows_booked hlisted hactive hfits htoday hbook
  have hsettled := (h.settledPosition_eq hlisted hactive hfits htoday hbook).1
  have hfrozen : (settledPosition money rows e).frozenQuantity = rows.position.frozenQuantity := by
    rw [hsettled, marked_frozenQuantity]
  rw [← settledPosition_lots money rows e] at hlots
  have havailable := availableOn_eq hfits
  rw [hday] at havailable
  cases heffect : order.positionEffect with
  | «open» =>
    rw [if_pos heffect] at hlots
    constructor
    · rw [hlots, immature_append, immature_cons, havailable]
      by_cases hkept : order.enforcesTPlus1 = true
      · simp [hkept, heffect]
      · simp [hkept]
    · rw [hlots]
      intro lot hlot
      obtain hold | hnew := mem_append.mp hlot
      · exact hhorizon lot hold
      · rw [mem_singleton.mp hnew]
        simp only [havailable]
        unfold Date
        split_ifs <;> omega
    · rw [hfrozen, (hopened heffect).2, hlots]
      have hlonger : front (filledPosition st order e).lots day ≤
          front ((filledPosition st order e).lots ++ [⟨e.quantity, e.availableOn⟩]) day :=
        front_le_append hfits.quantity_pos
      exact hcovered.trans hlonger
  | close =>
    rw [if_neg (by simp [heffect])] at hlots
    have hquantity := h.quantity_le_frozen hlisted hactive hfits heffect
    obtain ⟨himmature, hleft⟩ := consumeLots_front hbacked.lots_pos hfits.quantity_pos.le
      (hquantity.trans hcovered)
    constructor
    · rw [hlots, himmature]
      simp [heffect]
    · rw [hlots]
      intro lot hlot
      obtain ⟨old, hold, hsame⟩ := mem_consumeLots hlot
      rw [← hsame]
      exact hhorizon old hold
    · rw [hfrozen, (hclosed heffect).2, hlots]
      linarith

theorem Dated.exchanged {before after : State} {position' : Position} (h : Dated day before)
    (hlisted : before.Listed order) (hterms : order.SameTerms order')
    (hmem : position ∈ before.positions) (hkey : position.key = order.key)
    (hkey' : position'.key = order.key) (hlots : FilledLots day order e position position')
    (hday : e.filledAt.date = day) (hfills : after.fills = before.fills ++ [fillRow money order e])
    (horders : after.orders = before.orders.set order.orderId order')
    (hpositions : after.positions = overwrite Position.key position' before.positions) :
    Dated day after ∧ ∀ symbol, SalesMature symbol day before → SalesMature symbol day after := by
  have hbought : ∀ key, after.boughtUnderTPlus1 key day = before.boughtUnderTPlus1 key day + _ :=
    boughtUnderTPlus1_fill hlisted hterms hfills horders
  refine ⟨⟨?_, ?_, ?_, ?_, ?_⟩, ?_⟩
  · rw [hpositions]
    intro other hother
    rw [hbought]
    obtain rfl | ⟨hold, hne⟩ := mem_overwrite hother
    · rw [hlots.kept, hkey', h.kept position hmem, hkey]
      simp only [true_and, hday]
    · rw [hkey'] at hne
      rw [if_neg fun hthis => hne hthis.1.symm, add_zero]
      exact h.kept other hold
  · rw [hpositions]
    intro other hother
    obtain rfl | ⟨hold, -⟩ := mem_overwrite hother
    · exact hlots.horizon
    · exact h.horizon other hold
  · rw [hfills]
    intro fill hfill
    obtain hold | hnew := mem_append.mp hfill
    · exact h.past fill hold
    · rw [mem_singleton.mp hnew]
      exact hday.le
  · rw [hfills, horders, length_set]
    intro fill hfill
    obtain hold | hnew := mem_append.mp hfill
    · exact h.ordered fill hold
    · rw [mem_singleton.mp hnew]
      exact (List.getElem?_eq_some_iff.mp hlisted).1
  · rw [hfills, hpositions]
    intro fill hfill
    apply exists_key_overwrite
    obtain hold | hnew := mem_append.mp hfill
    · exact h.positioned fill hold
    · rw [mem_singleton.mp hnew]
      exact ⟨position, hmem, hkey⟩
  · intro symbol hbefore
    unfold SalesMature
    rw [hpositions]
    intro other hother hthis
    obtain rfl | ⟨hold, -⟩ := mem_overwrite hother
    · exact hlots.covered
    · exact hbefore other hold hthis

theorem Dated.applyFill (h : Dated day st) (hheld : Held (fun _ => false) days st)
    (hlisted : st.Listed order) (hactive : order.isActive = true) (hfits : e.Fits order)
    (hday : e.filledAt.date = day) (htoday : ∀ other, other ≤ day → days other = true)
    (hmature : SalesMature order.symbol day st) : Dated day (applyFill money st order e).state ∧
      ∀ symbol, SalesMature symbol day st → SalesMature symbol day (applyFill money st order e).state := by
  have hdated := h.ensurePosition order e.fillPrice
  obtain ⟨hmem, hkey⟩ := ensurePosition_spec st order e.fillPrice
  have horders : (Simulation.ensurePosition st order e.fillPrice).1.orders = st.orders := by
    rw [ensurePosition_eq]
  have hlisted' : (Simulation.ensurePosition st order e.fillPrice).1.Listed order := by
    unfold State.Listed
    rw [horders]
    exact hlisted
  have hcovered : ∀ symbol, SalesMature symbol day st →
      SalesMature symbol day (Simulation.ensurePosition st order e.fillPrice).1 := by
    intro symbol hbefore
    obtain ⟨position, -, heq⟩ | ⟨-, heq⟩ := ensurePosition_cases st order e.fillPrice
    · rw [heq]
      exact hbefore
    · rw [heq]
      intro position hposition hsymbol
      obtain rfl | hold := mem_addPosition.mp hposition
      · exact le_refl 0
      · exact hbefore position hold hsymbol
  have hsymbol : (filledPosition st order e).symbol = order.symbol := congrArg Prod.fst hkey
  have hfront := hcovered _ hmature _ hmem hsymbol
  have hstep : FillStep money st order e _ := applyFill_step st order e
  generalize Simulation.applyFill money st order e = result at hstep ⊢
  cases hstep with
  | known existing => exact ⟨h, fun _ hbefore => hbefore⟩
  | @failed rows error hbook =>
    rw [← hday] at htoday
    rw [(hheld.failed_rows hlisted hactive hfits htoday hbook).2]
    have hsame : order.SameTerms (fillRows st order e).order := .refl order
    constructor
    · apply hdated.of_rows
      · rfl
      · intro fill _
        exact enforcesTPlus1_set hlisted' hsame fill.orderId
      · exact (length_set).ge
      · exact exists_of_map_key map_key_overwrite
      · intro position hposition
        obtain rfl | ⟨hold, -⟩ := mem_overwrite hposition
        · exact ⟨_, hmem, rfl, rfl⟩
        · exact ⟨position, hold, rfl, rfl⟩
    · intro symbol hbefore position hposition hthis
      obtain rfl | ⟨hold, -⟩ := mem_overwrite hposition
      · exact hcovered symbol hbefore _ hmem hthis
      · exact hcovered symbol hbefore position hold hthis
  | @booked rows hbook =>
    have hlots := hheld.filled_lots hlisted hactive hfits hday htoday (hdated.horizon _ hmem) hfront
      hbook
    have hterms : order.SameTerms (settledOrder money rows e) :=
      (bookRows_terms hbook).1.trans (settledOrder_terms money rows e)
    have hnewKey : (settledPosition money rows e).key = order.key := by
      rw [settledPosition_key, (bookRows_terms hbook).2]
      exact hkey
    have hafter : Dated day (settleFill money (Simulation.ensurePosition st order e.fillPrice).1 order
          rows e).1 ∧ ∀ symbol, SalesMature symbol day
        (Simulation.ensurePosition st order e.fillPrice).1 → SalesMature symbol day
          (settleFill money (Simulation.ensurePosition st order e.fillPrice).1 order rows e).1 := by
      rw [settleFill_eq]
      refine hdated.exchanged hlisted' hterms hmem hkey hnewKey hlots hday rfl ?_ rfl
      rw [← hterms.orderId]
      rfl
    exact ⟨hafter.1, fun symbol hbefore => hafter.2 symbol (hcovered symbol hbefore)⟩

end FinDashboard.Simulation
