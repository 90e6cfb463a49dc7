import FinDashboard.Simulation.HeldRuns

/-!
# The projected position

The projection of a position is its quantity once every active order has been filled. A fill
moves quantity from the order into the position and leaves the projection alone; only ending
an order before it is filled, or placing a new one, changes it.
-/

namespace FinDashboard.Simulation

open Ledger List

variable {money : ℚ → ℚ} {st st' : State} {order order' : Order} {position position' : Position}
  {e : Execution} {key : String × PositionSide}

/-- What an order will still add to its position. -/
def Order.pull (order : Order) : ℚ :=
  if order.isActive then
    if order.positionEffect = .open then order.remaining else -order.remaining
  else 0

def openPull (orders : List Order) (key : String × PositionSide) : ℚ :=
  total (fun order => if order.key = key then order.pull else 0) orders

def heldQuantity (positions : List Position) (key : String × PositionSide) : ℚ :=
  (positions.find? fun position => position.key = key).elim 0 Position.totalQuantity

/-- The projection, without the limit of the order query. -/
def projection (st : State) (key : String × PositionSide) : ℚ :=
  heldQuantity st.positions key + openPull st.orders key

theorem pull_of_ended (h : order.isActive = false) : order.pull = 0 := by
  unfold Order.pull
  rw [h]
  rfl

/-- The limit of the order query is never reached. -/
theorem projectedQuantity_eq (hsound : Sound st) (symbol : String) (side : PositionSide) :
    projectedQuantity st symbol side = projection st (symbol, side) := by
  unfold projectedQuantity projection heldQuantity State.getPosition openPull
  rw [hsound.activeOrdersOf_eq, total_filter, total_filter]
  congr 1
  apply total_congr
  intro order _
  unfold Order.pull Order.key
  by_cases hactive : order.isActive = true <;> by_cases hsymbol : order.symbol = symbol <;>
    by_cases hside : order.positionSide = side <;> simp [hactive, hsymbol, hside]

/-- Rewriting a row changes what the one row will add. -/
theorem openPull_set (hlisted : st.Listed order) (hkey : order'.key = order.key) :
    openPull (st.orders.set order.orderId order') key =
      openPull st.orders key + if order.key = key then order'.pull - order.pull else 0 := by
  have hexchange : openPull (st.orders.set order.orderId order') key +
      (if order.key = key then order.pull else 0) =
        openPull st.orders key + if order'.key = key then order'.pull else 0 :=
    total_set_add hlisted
  rw [hkey] at hexchange
  by_cases hthis : order.key = key
  · rw [if_pos hthis, if_pos hthis] at hexchange
    rw [if_pos hthis]
    linarith
  · rw [if_neg hthis, if_neg hthis] at hexchange
    rw [if_neg hthis]
    linarith

theorem openPull_append (orders : List Order) : openPull (orders ++ [order]) key =
    openPull orders key + if order.key = key then order.pull else 0 := by
  unfold openPull
  rw [total_append, total_cons, total_nil, add_zero]

theorem heldQuantity_overwrite_ne (hkey : position'.key ≠ key) (positions : List Position) :
    heldQuantity (overwrite Position.key position' positions) key = heldQuantity positions key := by
  unfold heldQuantity overwrite
  rw [find?_map]
  have hcongr : ((fun position : Position => decide (position.key = key)) ∘ fun r =>
      if r.key = position'.key then position' else r) = fun position => decide (position.key = key) := by
    funext r
    by_cases hr : r.key = position'.key
    · simp [hr, hkey]
    · simp [hr]
  rw [hcongr]
  cases hfind : positions.find? (fun position => position.key = key) with
  | none => rfl
  | some found =>
    have hfound : found.key = key := by simpa using find?_some hfind
    simp [hfound, Ne.symm hkey]

/-- The row of the key is the one that was written. -/
theorem heldQuantity_overwrite (hmem : ∃ position ∈ st.positions, position.key = position'.key) :
    heldQuantity (overwrite Position.key position' st.positions) position'.key =
      position'.totalQuantity := by
  unfold heldQuantity overwrite
  rw [find?_map]
  have hcongr : ((fun position : Position => decide (position.key = position'.key)) ∘ fun r =>
      if r.key = position'.key then position' else r) =
        fun position => decide (position.key = position'.key) := by
    funext r
    by_cases hr : r.key = position'.key <;> simp [hr]
  rw [hcongr]
  obtain ⟨position, hposition, hkey⟩ := hmem
  cases hfind : st.positions.find? (fun position => position.key = position'.key) with
  | none =>
    have hnone := find?_eq_none.mp hfind position hposition
    exact absurd hkey (by simpa using hnone)
  | some found =>
    have hfound : found.key = position'.key := by simpa using find?_some hfind
    simp [hfound]

/-- With unique keys the row of a key is the row in the table. -/
theorem heldQuantity_of_mem (hkeys : (st.positions.map Position.key).Nodup)
    (hmem : position ∈ st.positions) :
    heldQuantity st.positions position.key = position.totalQuantity := by
  unfold heldQuantity
  cases hfind : st.positions.find? (fun other => other.key = position.key) with
  | none =>
    have hnone := find?_eq_none.mp hfind position hmem
    simp at hnone
  | some found =>
    have hfound : found.key = position.key := by simpa using find?_some hfind
    have hsame := inj_on_of_nodup_map hkeys (mem_of_find?_eq_some hfind) hmem hfound
    rw [hsame]
    rfl

/-- Rewriting a row changes what the one row holds. -/
theorem heldQuantity_rewrite (hkeys : (st.positions.map Position.key).Nodup)
    (hmem : position ∈ st.positions) (hkey : position'.key = position.key) :
    heldQuantity (overwrite Position.key position' st.positions) key = heldQuantity st.positions key +
        if position.key = key then position'.totalQuantity - position.totalQuantity else 0 := by
  by_cases hthis : position.key = key
  · rw [if_pos hthis, ← hthis, heldQuantity_of_mem hkeys hmem, ← hkey,
      heldQuantity_overwrite ⟨position, hmem, hkey.symm⟩]
    ring
  · rw [if_neg hthis, add_zero]
    apply heldQuantity_overwrite_ne
    rw [hkey]
    exact hthis

/-- An empty position holds what no position holds. -/
theorem heldQuantity_addPosition {added : Position} (htotal : added.totalQuantity = 0)
    (hnone : st.getPosition added.key = none) (hkeys : (st.positions.map Position.key).Nodup) :
    heldQuantity (st.addPosition added).positions key = heldQuantity st.positions key := by
  have hkeys' : ((st.addPosition added).positions.map Position.key).Nodup := by
    apply ((perm_orderedInsert _ _ _).map Position.key).nodup_iff.mpr
    rw [map_cons, nodup_cons]
    refine ⟨?_, hkeys⟩
    intro hmem
    obtain ⟨other, hother, hsame⟩ := mem_map.mp hmem
    exact key_ne_of_getPosition hnone other hother hsame
  by_cases hfound : ∃ position ∈ st.positions, position.key = key
  · obtain ⟨position, hmem, rfl⟩ := hfound
    rw [heldQuantity_of_mem hkeys hmem, heldQuantity_of_mem hkeys' (mem_addPosition.mpr (Or.inr hmem))]
  · have hbefore : heldQuantity st.positions key = 0 := by
      unfold heldQuantity
      rw [find?_eq_none.mpr]
      · rfl
      · intro position hmem
        simpa using fun heq => hfound ⟨position, hmem, heq⟩
    rw [hbefore]
    by_cases hadded : added.key = key
    · rw [← hadded, heldQuantity_of_mem hkeys' (mem_addPosition.mpr (Or.inl rfl)), htotal]
    · unfold heldQuantity
      rw [find?_eq_none.mpr]
      · rfl
      · intro position hmem
        obtain rfl | hold := mem_addPosition.mp hmem
        · simpa using hadded
        · simpa using fun heq => hfound ⟨position, hold, heq⟩

/-- Ending an order takes what it would still have added. -/
theorem projection_closeOrder (hsound : Sound st) (hlisted : st.Listed order) {status : OrderStatus}
    (hends : status = .rejected ∨ status = .cancelled) (reason : Reason) :
    projection (closeOrder st order status reason) key =
      projection st key - if order.key = key then order.pull else 0 := by
  have hended : (endedOrder st order status reason).isActive = false := by
    apply isActive_of_ended
    rw [endedOrder_status]
    exact hends
  have hheld : heldQuantity (closeOrder st order status reason).positions key =
      heldQuantity st.positions key := by
    rw [closeOrder_eq]
    cases hposition : st.getPosition order.key with
    | none => rfl
    | some position =>
      obtain ⟨hmem, -⟩ := mem_of_getPosition hposition
      have hsame := releaseQuantity_sameValue position order
      simp only
      rw [heldQuantity_rewrite hsound.keys hmem hsame.key, hsame.totalQuantity, sub_self]
      simp
  unfold projection
  rw [hheld, closeOrder_orders, openPull_set hlisted (endedOrder_terms st order status reason).key,
    pull_of_ended hended]
  split_ifs <;> ring

theorem settledOrder_pull {rows : FillRows} (hquantity : e.quantity ≤ rows.order.remaining) :
    (settledOrder money rows e).pull =
      if rows.order.positionEffect = .open then rows.order.remaining - e.quantity
      else -(rows.order.remaining - e.quantity) := by
  have hterms := settledOrder_terms money rows e
  have hremaining : (settledOrder money rows e).remaining = rows.order.remaining - e.quantity := by
    unfold Order.remaining
    rw [hterms.quantity, settledOrder_filledQuantity]
    ring
  unfold Order.pull
  by_cases hlive : (settledOrder money rows e).isActive = true
  · rw [if_pos hlive, hterms.positionEffect, hremaining]
  · rw [if_neg hlive]
    rw [settledOrder_isActive] at hlive
    have hdone : rows.order.remaining - e.quantity = 0 := by linarith
    rw [hdone, neg_zero, ite_self]

theorem failed_totalQuantity {rows rows' : FillRows} {error : SimulationRiskError}
    (h : bookRows money rows e = (rows', some error)) :
    rows'.position.totalQuantity = rows.position.totalQuantity := by
  unfold bookRows at h
  cases heffect : rows.order.positionEffect with
  | «open» =>
    rw [heffect] at h
    rw [openFill_failed h]
  | close =>
    rw [heffect] at h
    rw [(closeFill_failed h).2]
    rfl

theorem booked_totalQuantity {rows rows' : FillRows} (h : bookRows money rows e = (rows', none)) :
    rows'.position.totalQuantity = rows.position.totalQuantity +
      if rows.order.positionEffect = .open then e.quantity else -e.quantity := by
  unfold bookRows at h
  cases heffect : rows.order.positionEffect with
  | «open» =>
    rw [heffect] at h
    rw [(openFill_booked h).2, if_pos rfl]
    exact openedPosition_totalQuantity money rows.position e
  | close =>
    rw [heffect] at h
    obtain ⟨sold, hsold, hrows⟩ := closeFill_booked h
    obtain ⟨henough, lots, -, heq⟩ := decreasePosition_ok hsold
    rw [hrows, if_neg (by simp)]
    change sold.totalQuantity = _
    rw [heq, (soldPosition_fields henough).1]
    exact sub_eq_add_neg _ _

/-- A fill moves quantity from the order into the position. -/
theorem projection_applyFill (hsound : Sound st) (hlisted : st.Listed order)
    (hactive : order.isActive = true) (hfits : e.Fits order) :
    projection (applyFill money st order e).state key = projection st key := by
  have hsound' := hsound.ensurePosition order e.fillPrice
  obtain ⟨hmem, hkey⟩ := ensurePosition_spec st order e.fillPrice
  have horders : (ensurePosition st order e.fillPrice).1.orders = st.orders := by
    rw [ensurePosition_eq]
  have hensured : heldQuantity (ensurePosition st order e.fillPrice).1.positions key =
      heldQuantity st.positions key := by
    obtain ⟨position, -, heq⟩ | ⟨hnone, heq⟩ := ensurePosition_cases st order e.fillPrice
    · rw [heq]
    · rw [heq]
      exact heldQuantity_addPosition rfl hnone hsound.keys
  have hpull : openPull (applyFill money st order e).state.orders key = openPull st.orders key +
      if order.key = key then (applyFill money st order e).order.pull - order.pull else 0 := by
    rw [applyFill_orders st order e hlisted]
    exact openPull_set hlisted (applyFill_terms st order e).key
  have hstep : FillStep money st order e _ := applyFill_step st order e
  generalize applyFill money st order e = result at hstep hpull ⊢
  unfold projection
  rw [hpull]
  cases hstep with
  | known existing =>
    rw [sub_self, ite_self, add_zero]
  | @failed rows error hbook =>
    obtain ⟨hterms, hrowsKey⟩ := bookRows_terms hbook
    obtain ⟨hfilled, hstatus⟩ := bookRows_progress hbook
    have hsame : rows.order.pull = order.pull := by
      unfold Order.pull Order.isActive Order.remaining
      rw [hstatus, hterms.positionEffect, hterms.quantity, hfilled, fillRows_order]
    have htotal := failed_totalQuantity hbook
    have hheld : heldQuantity
        ((ensurePosition st order e.fillPrice).1.withRows rows).positions key =
          heldQuantity (ensurePosition st order e.fillPrice).1.positions key +
            if (fillRows st order e).position.key = key then rows.position.totalQuantity -
              (fillRows st order e).position.totalQuantity else 0 :=
      heldQuantity_rewrite hsound'.keys hmem hrowsKey
    rw [htotal, sub_self, ite_self, add_zero] at hheld
    rw [hsame, hheld, hensured, sub_self, ite_self, add_zero]
  | @booked rows hbook =>
    obtain ⟨hterms, hrowsKey⟩ := bookRows_terms hbook
    obtain ⟨hfilled, -⟩ := bookRows_progress hbook
    have hremaining : rows.order.remaining = order.remaining := by
      unfold Order.remaining
      rw [hterms.quantity, hfilled, fillRows_order]
    have hafter : (settledOrder money rows e).pull = _ := settledOrder_pull (by
      rw [hremaining]
      exact hfits.quantity_le)
    have htotal := booked_totalQuantity hbook
    have hsame := settledPosition_sameValue money rows e
    have hpositionKey : (fillRows st order e).position.key = order.key := hkey
    rw [settleFill_eq]
    have hheld : heldQuantity (overwrite Position.key (settledPosition money rows e)
        (ensurePosition st order e.fillPrice).1.positions) key =
          heldQuantity (ensurePosition st order e.fillPrice).1.positions key +
            if (fillRows st order e).position.key = key then
              (settledPosition money rows e).totalQuantity -
                (fillRows st order e).position.totalQuantity else 0 :=
      heldQuantity_rewrite hsound'.keys hmem (hsame.key.trans hrowsKey)
    simp only [revalueAccount]
    rw [hheld, hensured, hafter, hsame.totalQuantity, htotal, hterms.positionEffect, hremaining,
      hpositionKey]
    simp only [fillRows_order]
    unfold Order.pull
    rw [if_pos hactive]
    by_cases hthis : order.key = key
    · rw [if_pos hthis, if_pos hthis]
      by_cases hopen : order.positionEffect = .open
      · simp only [hopen, if_true]
        ring
      · simp only [hopen, if_false]
        ring
    · rw [if_neg hthis, if_neg hthis]
      ring

theorem projection_markedState (hsound : Sound st) (hmem : position ∈ st.positions) (bar : Bar)
    (rule : SimulationAssetRule) :
    projection (markedState money st position bar rule) key = projection st key := by
  obtain ⟨position', hsame, -, horders, hpositions⟩ := markedState_cases money st position bar rule
  unfold projection
  rw [horders, hpositions, heldQuantity_rewrite hsound.keys hmem hsame.key, hsame.totalQuantity,
    sub_self, ite_self, add_zero]

theorem projection_of_same (hsame : SameBooks st st') : projection st' key = projection st key := by
  unfold projection
  rw [hsame.orders, hsame.positions]

theorem heldQuantity_congr {positions positions' : List Position}
    (h : (positions'.map fun position => (position.key, position.totalQuantity)) =
      positions.map fun position => (position.key, position.totalQuantity)) :
    heldQuantity positions' key = heldQuantity positions key := by
  have hread : ∀ rows : List Position, heldQuantity rows key =
      ((rows.map fun position => (position.key, position.totalQuantity)).find?
        fun entry => entry.1 = key).elim 0 Prod.snd := by
    intro rows
    unfold heldQuantity
    rw [find?_map]
    simp only [Function.comp_def]
    cases rows.find? (fun position => position.key = key) <;> rfl
  rw [hread, hread, h]

theorem recoverPositions_totals (active : List Order) (today : Date) (positions : List Position) :
    ((recoverPositions active today positions).1.map fun position =>
        (position.key, position.totalQuantity)) =
      positions.map fun position => (position.key, position.totalQuantity) := by
  induction positions with
  | nil => rfl
  | cons position rest ih =>
    unfold recoverPositions
    simp only
    split_ifs
    · rfl
    · rw [map_cons, map_cons, ih]
      rfl

theorem projection_recoverSession (st : State) :
    projection (recoverSession money st).1 key = projection st key := by
  unfold recoverSession
  simp only
  by_cases hshort : st.account.cash + st.account.frozenCash < total Order.reservedCash st.activeOrders
  · rw [if_pos hshort]
    rfl
  · rw [if_neg hshort]
    have hheld : heldQuantity (recoverPositions st.activeOrders st.clockDate st.positions).1 key =
        heldQuantity st.positions key := heldQuantity_congr (recoverPositions_totals _ _ _)
    exact congrArg (· + openPull st.orders key) hheld

end FinDashboard.Simulation
