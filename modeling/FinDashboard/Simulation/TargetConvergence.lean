import FinDashboard.Runs.Guarded
import FinDashboard.Simulation.CashConservation
import FinDashboard.Simulation.Projection

/-!
# Targets converge

An accepted target brings the projected position to within a lot of the target without
crossing it. Fills keep the projection there, and asking for the same target again finds
nothing left to order.
-/

namespace FinDashboard.Simulation

open Ledger List

variable {money : ℚ → ℚ} {st st' : State} {decisionId : String} {now : Timestamp}
  {target : SimulationTarget} {key : String × PositionSide}

/-- The projection has come within a lot of the target, from the side it was on. -/
structure Converged (rule : AssetRule) (target before after : ℚ) : Prop where
  within : |target - after| < rule.lotSize
  from_below : before ≤ target → after ≤ target
  from_above : target ≤ before → target ≤ after

theorem converged_of_opened {rule : AssetRule} {target before : ℚ} (h : 0 < target - before) :
    Converged rule target before (before + rule.roundToLot |target - before|) := by
  rw [abs_of_pos h]
  have hle := rule.roundToLot_le h.le
  have hlost := rule.sub_roundToLot_lt h.le
  have hnonneg : 0 ≤ target - (before + rule.roundToLot (target - before)) := by linarith
  refine ⟨?_, fun _ => by linarith, fun habove => by linarith⟩
  rw [abs_of_nonneg hnonneg]
  linarith

theorem converged_of_closed {rule : AssetRule} {target before : ℚ} (h : target - before ≤ 0) :
    Converged rule target before (before - rule.roundToLot |target - before|) := by
  have hpos : 0 ≤ before - target := by linarith
  rw [abs_sub_comm, abs_of_nonneg hpos]
  have hle := rule.roundToLot_le hpos
  have hlost := rule.sub_roundToLot_lt hpos
  have hnonpos : target - (before - rule.roundToLot (before - target)) ≤ 0 := by linarith
  refine ⟨?_, fun hbelow => ?_, fun _ => by linarith⟩
  · rw [abs_of_nonpos hnonpos]
    linarith
  · have hmet : before - target = 0 := by linarith
    rw [hmet, rule.roundToLot_of_lt rule.lotSize_pos]
    linarith

theorem targetDelta_eq (hsound : Sound st) (target : SimulationTarget) :
    targetDelta st target = target.targetQuantity - projection st target.key := by
  unfold targetDelta
  rw [projectedQuantity_eq hsound]
  rfl

theorem projection_addOrder (st : State) (order : Order) : projection (st.addOrder order) key =
    projection st key + if order.key = key then order.pull else 0 := by
  unfold projection
  rw [State.addOrder_orders, openPull_append, ← add_assoc]
  rfl

theorem projection_reserved (hsound : Sound st) {position : Position} (hmem : position ∈ st.positions)
    (quantity : ℚ) : projection (st.setPosition (position.reserved quantity)) key =
      projection st key := by
  have hheld : heldQuantity (overwrite Position.key (position.reserved quantity) st.positions) key =
      heldQuantity st.positions key + if position.key = key then
        (position.reserved quantity).totalQuantity - position.totalQuantity else 0 :=
    heldQuantity_rewrite hsound.keys hmem rfl
  have hsame : (position.reserved quantity).totalQuantity = position.totalQuantity := rfl
  rw [hsame, sub_self, ite_self, add_zero] at hheld
  exact congrArg (· + openPull st.orders key) hheld

theorem acceptedRow_pull (st : State) (decisionId : String) (target : SimulationTarget)
    (terms : OrderTerms) (cash quantity : ℚ) :
    (acceptedRow st decisionId target terms cash quantity).pull =
      if terms.effect = .open then terms.quantity else -terms.quantity := by
  have hremaining : (acceptedRow st decisionId target terms cash quantity).remaining =
      terms.quantity := sub_zero _
  have hactive : (acceptedRow st decisionId target terms cash quantity).isActive = true := rfl
  unfold Order.pull
  rw [if_pos hactive, hremaining]
  rfl

/-- The orders that a target leaves for a position, and the projection they lead to. -/
structure PlacedTarget (rule : AssetRule) (target : SimulationTarget) (st st' : State)
    (placed : Option Order) : Prop where
  elsewhere : ∀ key, key ≠ target.key → projection st' key = projection st key
  converged : (∀ order ∈ placed, order.status ≠ .rejected) →
    Converged rule target.targetQuantity (projection st target.key) (projection st' target.key)
  keyed : ∀ order ∈ placed, order.key = target.key
  appended : st'.orders = st.orders ++ placed.toList
  kept : |target.targetQuantity - projection st target.key| < rule.lotSize →
    projection st' target.key = projection st target.key ∧ ∀ order ∈ placed, order.isActive = false

theorem placedTarget {rule : SimulationAssetRule} {placed : Option Order} (hsound : Sound st)
    (h : Placement money st decisionId target rule st' placed) :
    PlacedTarget rule.rule target st st' placed := by
  have hdelta := targetDelta_eq hsound target
  cases h with
  | satisfied hzero =>
    rw [hdelta] at hzero
    have hmet : projection st target.key = target.targetQuantity := by linarith
    have hnone : ∀ order : Order, order ∉ (none : Option Order) := fun order horder => by cases horder
    refine ⟨fun _ _ => rfl, fun _ => ⟨?_, fun _ => hmet.le, fun _ => hmet.ge⟩,
      fun order horder => absurd horder (hnone order), (append_nil _).symm,
      fun _ => ⟨rfl, fun order horder => absurd horder (hnone order)⟩⟩
    rw [hzero, abs_zero]
    exact rule.rule.lotSize_pos
  | refused effect quantity eligibleAfter reason message =>
    have hended : (refusedRow st decisionId target effect quantity eligibleAfter reason
        message).isActive = false := rfl
    have hsame : ∀ key, projection (st.addOrder (refusedRow st decisionId target effect quantity
        eligibleAfter reason message)) key = projection st key := by
      intro key
      rw [projection_addOrder, pull_of_ended hended, ite_self, add_zero]
    refine ⟨fun key _ => hsame key, fun haccepted => absurd rfl (haccepted _ rfl), ?_, rfl,
      fun _ => ⟨hsame _, ?_⟩⟩
    · intro order horder
      rw [← Option.some.inj horder]
      rfl
    · intro order horder
      rw [← Option.some.inj horder]
      exact hended
  | @opened terms hterms hdemand heffect hadmits hshort =>
    have hpos : 0 < targetDelta st target := by
      by_contra hnot
      have hclose := hterms.effect
      rw [if_neg hnot, heffect] at hclose
      cases hclose
    have hquantity := hterms.quantity
    have hprojected : ∀ key, projection ((st.cashReserved (requiredCash st.session.config rule
        terms.notional)).addOrder (acceptedRow st decisionId target terms
          (money (requiredCash st.session.config rule terms.notional)) 0)) key =
        projection st key + if target.key = key then terms.quantity else 0 := by
      intro key
      rw [projection_addOrder, acceptedRow_pull, heffect, if_pos rfl]
      rfl
    rw [hdelta] at hpos hquantity
    refine ⟨?_, fun _ => ?_, ?_, rfl, ?_⟩
    · intro key hkey
      rw [hprojected, if_neg (Ne.symm hkey), add_zero]
    · rw [hprojected, if_pos rfl, hquantity]
      exact converged_of_opened hpos
    · intro order horder
      rw [← Option.some.inj horder]
      rfl
    · intro hnear
      have hnone := rule.rule.roundToLot_of_lt hnear
      rw [← hquantity] at hnone
      exact absurd hnone hterms.quantity_pos.ne'
  | @closed terms position hterms heffect hroom hposition havailable =>
    obtain ⟨hmem, -⟩ := mem_of_getPosition hposition
    have hneg : targetDelta st target ≤ 0 := by
      by_contra hnot
      have hopen := hterms.effect
      rw [if_pos (not_le.mp hnot), heffect] at hopen
      cases hopen
    have hquantity := hterms.quantity
    have hprojected : ∀ key, projection ((st.setPosition (position.reserved
        terms.quantity)).addOrder (acceptedRow st decisionId target terms 0 terms.quantity)) key =
        projection st key + if target.key = key then -terms.quantity else 0 := by
      intro key
      rw [projection_addOrder, acceptedRow_pull, heffect, projection_reserved hsound hmem]
      simp only [reduceCtorEq, if_false]
      rfl
    rw [hdelta] at hneg hquantity
    refine ⟨?_, fun _ => ?_, ?_, rfl, ?_⟩
    · intro key hkey
      rw [hprojected, if_neg (Ne.symm hkey), add_zero]
    · rw [hprojected, if_pos rfl, hquantity, ← sub_eq_add_neg]
      exact converged_of_closed hneg
    · intro order horder
      rw [← Option.some.inj horder]
      rfl
    · intro hnear
      have hnone := rule.rule.roundToLot_of_lt hnear
      rw [← hquantity] at hnone
      exact absurd hnone hterms.quantity_pos.ne'

/-- No order placed for the target was rejected. -/
def AcceptedTarget (orders : List Order) (target : SimulationTarget) : Prop :=
  ∀ order ∈ orders, order.key = target.key → order.status ≠ .rejected

/-- What the loop over the targets has reached: the treated targets have converged, the
projections of the others are as they were. -/
structure Treated (before : State) (done : List SimulationTarget) (progress : Submission) : Prop where
  converged : ∀ target ∈ done, ∀ rule, resolveSimulationRule target.assetRuleKey target.market
      target.instrumentType target.symbol = .ok rule → AcceptedTarget progress.orders target →
    Converged rule.rule target.targetQuantity (projection before target.key)
      (projection progress.state target.key)
  resolved : ∀ target ∈ done, ∃ rule, resolveSimulationRule target.assetRuleKey target.market
      target.instrumentType target.symbol = .ok rule
  untouched : ∀ key, (∀ target ∈ done, target.key ≠ key) →
    projection progress.state key = projection before key

theorem Treated.next {before : State} {done : List SimulationTarget} {progress : Submission}
    {placed : State × Option Order} (h : Treated before done progress)
    (hsound : Sound progress.state) (hfresh : ∀ other ∈ done, other.key ≠ target.key)
    (hplaced : targetToOrder money progress.state decisionId now target = .ok placed) :
    Treated before (done ++ [target])
      { state := placed.1, orders := progress.orders ++ placed.2.toList } := by
  obtain ⟨rule, hrule, hplacement⟩ := targetToOrder_placement hplaced
  have hrows := placedTarget hsound hplacement
  refine ⟨?_, ?_, ?_⟩
  · intro other hother otherRule hotherRule haccepted
    have hearlier : AcceptedTarget progress.orders other := fun order horder =>
      haccepted order (mem_append_left _ horder)
    obtain hdone | hnew := mem_append.mp hother
    · rw [hrows.elsewhere _ (hfresh other hdone)]
      exact h.converged other hdone otherRule hotherRule hearlier
    · have hthis := mem_singleton.mp hnew
      subst hthis
      rw [hrule] at hotherRule
      rw [← Except.ok.inj hotherRule, ← h.untouched other.key hfresh]
      apply hrows.converged
      intro order horder
      exact haccepted order (mem_append_right _ (Option.mem_toList.mpr horder))
        (hrows.keyed order horder)
  · intro other hother
    obtain hdone | hnew := mem_append.mp hother
    · exact h.resolved other hdone
    · rw [mem_singleton.mp hnew]
      exact ⟨rule, hrule⟩
  · intro key hkey
    have hnew := hkey target (mem_append_right _ mem_cons_self)
    rw [hrows.elsewhere key (Ne.symm hnew)]
    exact h.untouched key fun other hother => hkey other (mem_append_left _ hother)

theorem submitDecision_converged {decision : SimulationDecision} {result : DecisionResult}
    (hsound : Sound st) (h : submitDecision money st decision now = .ok result)
    (hnew : result.duplicate = false) (htarget : target ∈ decision.targets)
    (haccepted : AcceptedTarget result.orders target) :
    ∃ rule, resolveSimulationRule target.assetRuleKey target.market target.instrumentType
        target.symbol = .ok rule ∧ Converged rule.rule target.targetQuantity (projection st target.key)
        (projection result.state target.key) := by
  obtain ⟨-, hduplicate⟩ | ⟨submitted, hsubmitted, heq⟩ := submitDecision_cases h
  · rw [hnew] at hduplicate
    cases hduplicate
  · have hstart := sameBooks_accepting st decision
    have hkeys := decision.keys_nodup
    have hloop : Sound submitted.state ∧ ∃ done, decision.targets = done ++ [] ∧
        Treated st done submitted := by
      apply submitTargets_invariant
        (fun rest progress => ∃ done, decision.targets = done ++ rest ∧ Treated st done progress) _
        (hsound.of_same hstart) _ hsubmitted
      · intro next rest progress placed hsound' ⟨done, hdone, htreated⟩ hplaced
        refine ⟨done ++ [next], by simp [hdone], htreated.next hsound' ?_ hplaced⟩
        intro other hother hsame
        rw [hdone, map_append, map_cons] at hkeys
        have hdisjoint := disjoint_of_nodup_append hkeys
        exact hdisjoint (mem_map.mpr ⟨other, hother, hsame⟩) mem_cons_self
      · refine ⟨[], rfl, ?_, ?_, fun key _ => projection_of_same hstart⟩
        · intro other hother
          cases hother
        · intro other hother
          cases hother
    obtain ⟨-, done, hdone, htreated⟩ := hloop
    rw [append_nil] at hdone
    rw [hdone] at htarget
    obtain ⟨rule, hrule⟩ := htreated.resolved target htarget
    rw [heq] at haccepted
    refine ⟨rule, hrule, ?_⟩
    have hsame : projection result.state target.key = projection submitted.state target.key := by
      rw [heq]
      exact projection_of_same (sameBooks_revalue money submitted.state)
    rw [hsame]
    exact htreated.converged target htarget rule hrule haccepted

/-- An order that was open for a position has been cancelled or rejected. -/
def EndedSince (before after : State) (key : String × PositionSide) : Prop :=
  ∃ (orderId : ℕ) (old new : Order), before.orders[orderId]? = some old ∧ old.isActive = true ∧
    old.key = key ∧ after.orders[orderId]? = some new ∧
      (new.status = .cancelled ∨ new.status = .rejected)

/-- The orders that are open were open before, and the projection is the same unless one of
them has ended. -/
structure Undecided (before : State) (key : String × PositionSide) (st : State) : Prop where
  open_before : ∀ order, st.Listed order → order.isActive = true →
    ∃ old, before.orders[order.orderId]? = some old ∧ old.isActive = true ∧ old.key = order.key
  projected : projection st key = projection before key ∨ EndedSince before st key

namespace Undecided

variable {before : State} {order order' : Order} {e : Execution}

theorem start : Undecided before key before :=
  ⟨fun order hlisted hactive => ⟨order, hlisted, hactive, rfl⟩, Or.inl rfl⟩

/-- An ended row stays while open rows are rewritten. -/
theorem ended_set (hlisted : st.Listed order) (hactive : order.isActive = true)
    (horders : st'.orders = st.orders.set order.orderId order') (h : EndedSince before st key) :
    EndedSince before st' key := by
  obtain ⟨orderId, old, new, hold, holdActive, hkey, hnew, hstatus⟩ := h
  have hother : order.orderId ≠ orderId := by
    intro hsame
    have hrow : st.orders[order.orderId]? = some new := by
      rw [hsame]
      exact hnew
    rw [hlisted] at hrow
    rw [Option.some.inj hrow, isActive_of_ended hstatus.symm] at hactive
    cases hactive
  refine ⟨orderId, old, new, hold, holdActive, hkey, ?_, hstatus⟩
  rw [horders, List.getElem?_set_ne hother]
  exact hnew

/-- The open rows after an open row was rewritten. -/
theorem open_before_set (h : Undecided before key st) (hlisted : st.Listed order)
    (hactive : order.isActive = true) (hterms : order.SameTerms order')
    (horders : st'.orders = st.orders.set order.orderId order') :
    ∀ other, st'.Listed other → other.isActive = true → ∃ old,
      before.orders[other.orderId]? = some old ∧ old.isActive = true ∧ old.key = other.key := by
  intro other hother hotherActive
  unfold State.Listed at hother
  rw [horders] at hother
  by_cases hsame : order.orderId = other.orderId
  · obtain ⟨hlt, -⟩ := List.getElem?_eq_some_iff.mp hlisted
    rw [← hsame, List.getElem?_set_self hlt] at hother
    rw [← Option.some.inj hother, hterms.orderId, hterms.key]
    exact h.open_before order hlisted hactive
  · rw [List.getElem?_set_ne hsame] at hother
    exact h.open_before other hother hotherActive

theorem closeOrder (h : Undecided before key st) (hsound : Sound st) (hlisted : st.Listed order)
    (hactive : order.isActive = true) {status : OrderStatus}
    (hends : status = .rejected ∨ status = .cancelled) (reason : Reason) :
    Undecided before key (closeOrder st order status reason) := by
  have horders := closeOrder_orders st order status reason
  refine ⟨h.open_before_set hlisted hactive (endedOrder_terms st order status reason) horders, ?_⟩
  by_cases hthis : order.key = key
  · right
    obtain ⟨old, hold, holdActive, hkey⟩ := h.open_before order hlisted hactive
    refine ⟨order.orderId, old, endedOrder st order status reason, hold, holdActive,
      hkey.trans hthis, ?_, ?_⟩
    · obtain ⟨hlt, -⟩ := List.getElem?_eq_some_iff.mp hlisted
      rw [horders]
      exact List.getElem?_set_self hlt
    · rw [endedOrder_status]
      exact hends.symm
  · obtain hprojected | hended := h.projected
    · left
      rw [projection_closeOrder hsound hlisted hends, if_neg hthis, sub_zero]
      exact hprojected
    · exact Or.inr (ended_set hlisted hactive horders hended)

theorem applyFill (h : Undecided before key st) (hsound : Sound st) (hlisted : st.Listed order)
    (hactive : order.isActive = true) (hfits : e.Fits order) :
    Undecided before key (applyFill money st order e).state := by
  have horders : (Simulation.applyFill money st order e).state.orders =
      st.orders.set order.orderId (Simulation.applyFill money st order e).order :=
    applyFill_orders st order e hlisted
  refine ⟨h.open_before_set hlisted hactive (applyFill_terms st order e) horders, ?_⟩
  obtain hprojected | hended := h.projected
  · left
    rw [projection_applyFill hsound hlisted hactive hfits]
    exact hprojected
  · exact Or.inr (ended_set hlisted hactive horders hended)

theorem of_orders (h : Undecided before key st) (horders : st'.orders = st.orders)
    (hprojected : projection st' key = projection st key) : Undecided before key st' := by
  constructor
  · intro order hlisted
    unfold State.Listed at hlisted
    rw [horders] at hlisted
    exact h.open_before order hlisted
  · rw [hprojected]
    unfold EndedSince
    rw [horders]
    exact h.projected

theorem kept (money : ℚ → ℚ) (before : State) (key : String × PositionSide) :
    Kept money (fun _ _ => False) (fun _ => True) (Undecided before key) where
  close := fun _ _ _ reason hsound h hlisted hactive hends =>
    h.closeOrder hsound hlisted hactive hends reason
  fill := fun _ _ _ _ _ hsound h hlisted hactive hfits _ => h.applyFill hsound hlisted hactive hfits
  mark := fun _ _ st position rule hsound h hmem _ _ =>
    h.of_orders (markedState_frame money st position _ rule).orders
      (projection_markedState hsound hmem _ rule)
  books := fun _ _ hsame h => h.of_orders hsame.orders (projection_of_same hsame)
  place := fun _ _ _ _ _ _ _ hnever _ => hnever.elim

end Undecided

/-- A call that is not a decision. -/
def Action.NoDecision : Action → Prop
  | .submitDecision _ _ => False
  | _ => True

theorem recoverSession_orders (st : State) : (recoverSession money st).1.orders = st.orders := by
  unfold recoverSession
  simp only
  split_ifs <;> rfl

/-- Between two decisions only the end of an order moves the projection. -/
theorem undecided_run {before : State} {actions : List Action} (hsound : Sound st)
    (h : Undecided before key st) (hactions : ∀ action ∈ actions, action.NoDecision) :
    Sound (runCalls money st actions) ∧ Undecided before key (runCalls money st actions) := by
  induction actions generalizing st with
  | nil => exact ⟨hsound, h⟩
  | cons action rest ih =>
    have hmeets : action.Meets money (fun _ _ => False) (fun _ _ => True) st := by
      have hfirst := hactions action mem_cons_self
      cases action with
      | submitDecision decision now => exact hfirst.elim
      | _ => trivial
    have hstep :=
      (Undecided.kept money before key).step hsound h hmeets fun _ =>
        h.of_orders (recoverSession_orders st) (projection_recoverSession st)
    exact ih hstep.1 hstep.2 fun other hother => hactions other (mem_cons_of_mem _ hother)

/-- Another request for the same quantity of the same instrument. -/
structure SimulationTarget.Repeats (again target : SimulationTarget) : Prop where
  key : again.key = target.key
  assetRuleKey : again.assetRuleKey = target.assetRuleKey
  market : again.market = target.market
  instrumentType : again.instrumentType = target.instrumentType
  targetQuantity : again.targetQuantity = target.targetQuantity

def openOrdersOf (st : State) (key : String × PositionSide) : List Order :=
  st.orders.filter fun order => order.isActive && order.key = key

theorem openOrdersOf_append {placed : Option Order} (horders : st'.orders = st.orders ++ placed.toList)
    (hnone : ∀ order ∈ placed, order.isActive = false ∨ order.key ≠ key) :
    openOrdersOf st' key = openOrdersOf st key := by
  unfold openOrdersOf
  rw [horders, filter_append, append_right_eq_self, filter_eq_nil_iff]
  intro order horder
  obtain hended | hother := hnone order (Option.mem_toList.mp horder)
  · simp [hended]
  · simp [hother]

theorem resubmission_places_nothing {decision : SimulationDecision} {result : DecisionResult}
    {again : SimulationTarget} {rule : SimulationAssetRule} (hsound : Sound st)
    (h : submitDecision money st decision now = .ok result) (hmem : again ∈ decision.targets)
    (hrule : resolveSimulationRule again.assetRuleKey again.market again.instrumentType
      again.symbol = .ok rule)
    (hmet : |again.targetQuantity - projection st again.key| < rule.rule.lotSize) :
    openOrdersOf result.state again.key = openOrdersOf st again.key := by
  obtain ⟨hsame, -⟩ | ⟨submitted, hsubmitted, heq⟩ := submitDecision_cases h
  · rw [hsame]
  · have hstart := sameBooks_accepting st decision
    have hkeys := decision.keys_nodup
    have hloop : Sound submitted.state ∧ (∀ other ∈ ([] : List SimulationTarget), other ∈
          decision.targets) ∧ projection submitted.state again.key = projection st again.key ∧
        openOrdersOf submitted.state again.key = openOrdersOf st again.key := by
      apply submitTargets_invariant
        (fun rest progress => (∀ other ∈ rest, other ∈ decision.targets) ∧
          projection progress.state again.key = projection st again.key ∧
          openOrdersOf progress.state again.key = openOrdersOf st again.key) _
        (hsound.of_same hstart) ⟨fun _ hother => hother, projection_of_same hstart, rfl⟩ hsubmitted
      intro next rest progress placed hsound' ⟨hrest, hprojected, hopen⟩ hplaced
      obtain ⟨nextRule, hnextRule, hplacement⟩ := targetToOrder_placement hplaced
      have hrows := placedTarget hsound' hplacement
      refine ⟨fun other hother => hrest other (mem_cons_of_mem _ hother), ?_⟩
      by_cases hthis : next.key = again.key
      · have hsame := inj_on_of_nodup_map hkeys (hrest next mem_cons_self) hmem hthis
        subst hsame
        rw [hrule] at hnextRule
        rw [← hprojected, Except.ok.inj hnextRule] at hmet
        obtain ⟨hkept, hnone⟩ := hrows.kept hmet
        refine ⟨hkept.trans hprojected, ?_⟩
        rw [openOrdersOf_append hrows.appended fun order horder => Or.inl (hnone order horder)]
        exact hopen
      · refine ⟨(hrows.elsewhere _ (Ne.symm hthis)).trans hprojected, ?_⟩
        rw [openOrdersOf_append hrows.appended fun order horder => Or.inr ?_]
        · exact hopen
        · rw [hrows.keyed order horder]
          exact hthis
    rw [heq]
    exact hloop.2.2.2

theorem Sound.reachable (h : Reachable money (fun _ _ => True) st) : Sound st := by
  have hkept : Kept money (fun _ _ => True) (fun _ => True) fun _ => True :=
    ⟨fun _ _ _ _ _ _ _ _ _ => trivial, fun _ _ _ _ _ _ _ _ _ _ _ => trivial,
      fun _ _ _ _ _ _ _ _ _ _ => trivial, fun _ _ _ _ => trivial,
      fun _ _ _ _ _ _ _ _ _ => trivial⟩
  induction h with
  | opened hnew => exact Sound.opened hnew
  | @call st action _ _ ih =>
    apply And.left (hkept.step ih trivial _ fun _ => trivial)
    cases action with
    | submitDecision decision now => exact targetsMeet_of_forall fun _ _ => trivial
    | _ => trivial

/-- An accepted target brings the projected position within a lot of itself, the calls up to the
next decision keep it there unless an order ends, and the same target then places no order that
stays open. -/
theorem target_decisions_converge (money : ℚ → ℚ) {st : State} {decision : SimulationDecision}
    {now : Timestamp} {result : DecisionResult} {target : SimulationTarget}
    (hreach : Reachable money (fun _ _ => True) st)
    (h : submitDecision money st decision now = .ok result) (hnew : result.duplicate = false)
    (htarget : target ∈ decision.targets) (haccepted : AcceptedTarget result.orders target) :
    ∃ rule, resolveSimulationRule target.assetRuleKey target.market target.instrumentType
        target.symbol = .ok rule ∧ Converged rule.rule target.targetQuantity
        (projectedQuantity st target.symbol target.positionSide)
        (projectedQuantity result.state target.symbol target.positionSide) ∧
      ∀ actions, (∀ action ∈ actions, action.NoDecision) →
        (projectedQuantity (runCalls money result.state actions) target.symbol target.positionSide =
            projectedQuantity result.state target.symbol target.positionSide ∨
          EndedSince result.state (runCalls money result.state actions) target.key) ∧
        (¬ EndedSince result.state (runCalls money result.state actions) target.key →
          ∀ laterDecision laterNow laterResult again, again ∈ laterDecision.targets →
            again.Repeats target →
            submitDecision money (runCalls money result.state actions) laterDecision laterNow =
              .ok laterResult → openOrdersOf laterResult.state target.key =
              openOrdersOf (runCalls money result.state actions) target.key) := by
  have hsound := Sound.reachable hreach
  have hstep : step money st (.submitDecision decision now) = result.state := by
    simp [step, h, committed, Except.map]
  have hsoundResult : Sound result.state := by
    rw [← hstep]
    exact Sound.reachable (hreach.call trivial)
  obtain ⟨rule, hrule, hconverged⟩ := submitDecision_converged hsound h hnew htarget haccepted
  refine ⟨rule, hrule, ?_, fun actions hactions => ?_⟩
  · rw [projectedQuantity_eq hsound, projectedQuantity_eq hsoundResult]
    exact hconverged
  · have hrun : Sound (runCalls money result.state actions) ∧
        Undecided result.state target.key (runCalls money result.state actions) :=
      undecided_run hsoundResult Undecided.start hactions
    obtain ⟨hsoundRun, hundecided⟩ := hrun
    rw [projectedQuantity_eq hsoundRun, projectedQuantity_eq hsoundResult]
    refine ⟨hundecided.projected, ?_⟩
    intro hopen laterDecision laterNow laterResult again hagain hrepeats hlater
    have hkept := hundecided.projected.resolve_right hopen
    have hsymbol : again.symbol = target.symbol := congrArg Prod.fst hrepeats.key
    rw [← hrepeats.key]
    apply resubmission_places_nothing hsoundRun hlater hagain
    · rw [hrepeats.assetRuleKey, hrepeats.market, hrepeats.instrumentType, hsymbol]
      exact hrule
    · rw [hrepeats.targetQuantity, hrepeats.key, hkept]
      exact hconverged.within

/-- A target that a single bar cannot fill. -/
def largeTarget : SimulationTarget :=
  securityTarget "600000" "a_share_stock" .stock 2550 (by norm_num)

def largeDecision : Except SimulationError DecisionResult :=
  submitDecision id (runCalls id (sampleSession id) (tradingRun.take 2))
    (singleDecision "D-1" largeTarget) ⟨1, 0, 0⟩

/-- The bar that fills a part of it. -/
def nextDay : Action :=
  .processBar (flatBar "E2" "600000" .aShare ⟨2, 0, 0⟩ 10.5 secondPrice_pos)

theorem target_decisions_converge_large : ∃ result, largeDecision = .ok result ∧
    ∃ rule, resolveSimulationRule "a_share_stock" .aShare .stock "600000" = .ok rule ∧
      Converged rule.rule 2550
        (projectedQuantity (runCalls id (sampleSession id) (tradingRun.take 2)) "600000" .long)
        (projectedQuantity result.state "600000" .long) ∧
      (projectedQuantity (runCalls id result.state [nextDay]) "600000" .long =
          projectedQuantity result.state "600000" .long ∨
        EndedSince result.state (runCalls id result.state [nextDay]) ("600000", .long)) := by
  have haccepted : largeDecision.toOption.elim false (fun result => !result.duplicate &&
      result.orders.all fun order => order.status ≠ .rejected) = true := by
    decide +kernel
  cases hresult : largeDecision with
  | error error =>
    rw [hresult] at haccepted
    cases haccepted
  | ok result =>
    rw [hresult] at haccepted
    simp only [Except.toOption, Option.elim, Bool.and_eq_true, Bool.not_eq_true',
      all_eq_true, decide_eq_true_eq] at haccepted
    have hreach : Reachable id (fun _ _ => True)
        (runCalls id (sampleSession id) (tradingRun.take 2)) :=
      (Reachable.opened (sampleSession_opened id)).calls ⟨trivial, trivial, trivial⟩
    obtain ⟨rule, hrule, hconverged, hkept⟩ := target_decisions_converge id hreach hresult
      haccepted.1 mem_cons_self fun order horder _ => haccepted.2 order horder
    refine ⟨result, rfl, rule, hrule, hconverged, And.left (hkept [nextDay] ?_)⟩
    intro action haction
    rw [mem_singleton.mp haction]
    trivial

section History

variable {first later : State} {order order' : Order}

/-- An order keeps its terms and its fills, and an ended one stays as it is. -/
structure Order.Continues (order order' : Order) : Prop where
  terms : order.SameTerms order'
  filled : order.filledQuantity ≤ order'.filledQuantity
  ended : order.isActive = false → order' = order

/-- The later tables go on with the first ones. -/
structure GoesOn (first later : State) : Prop where
  fills : first.fills <+: later.fills
  orders : ∀ (place : ℕ) (order : Order), first.orders[place]? = some order →
    ∃ order', later.orders[place]? = some order' ∧ order.Continues order'

theorem Order.Continues.refl (order : Order) : order.Continues order := ⟨.refl order, le_rfl, fun _ => rfl⟩

theorem GoesOn.rewrite (goes : GoesOn first st) (listed : st.Listed order) (active : order.isActive = true)
    (terms : order.SameTerms order') (filled : order.filledQuantity ≤ order'.filledQuantity)
    (fills : st.fills <+: later.fills) (orders : later.orders = st.orders.set order.orderId order') :
    GoesOn first later where
  fills := goes.fills.trans fills
  orders place row entry := by
    obtain ⟨row', entry', continues⟩ := goes.orders place row entry
    rw [orders, getElem?_set]
    split_ifs with here inside
    · obtain rfl : row' = order := Option.some.inj (entry'.symm.trans (here ▸ listed))
      refine ⟨order', rfl, continues.terms.trans terms, continues.filled.trans filled, fun ended => ?_⟩
      rw [continues.ended ended, ended] at active
      cases active
    · exact absurd (List.getElem?_eq_some_iff.mp listed).1 inside
    · exact ⟨row', entry', continues⟩

theorem GoesOn.of_append (goes : GoesOn first st) (fills : later.fills = st.fills)
    (orders : st.orders <+: later.orders) : GoesOn first later where
  fills := fills ▸ goes.fills
  orders place row entry := by
    obtain ⟨row', entry', continues⟩ := goes.orders place row entry
    obtain ⟨rest, whole⟩ := orders
    have inside := (List.getElem?_eq_some_iff.mp entry').1
    exact ⟨row', by rw [← whole, List.getElem?_append_left inside, entry'], continues⟩

theorem applyFill_progress {e : Execution} (quantity : 0 < e.quantity) :
    order.filledQuantity ≤ (applyFill money st order e).order.filledQuantity ∧
      st.fills <+: (applyFill money st order e).state.fills := by
  have same : (ensurePosition st order e.fillPrice).1.fills = st.fills := by rw [ensurePosition_eq]
  have effect : FillStep money st order e _ := applyFill_step st order e
  generalize applyFill money st order e = result at effect
  cases effect with
  | known existing => exact ⟨le_rfl, prefix_rfl⟩
  | failed booked => exact ⟨(bookRows_progress booked).1.ge, same ▸ prefix_rfl⟩
  | booked booked =>
    rw [settleFill_eq, settledOrder_filledQuantity, (bookRows_progress booked).1]
    exact ⟨le_add_of_nonneg_right quantity.le, same ▸ prefix_append _ _⟩

theorem goesOn_kept (first : State) : Kept money (fun _ _ => True) (fun _ => True) (GoesOn first) where
  close st order status reason _ goes listed active _ := by
    have filled : (endedOrder st order status reason).filledQuantity = order.filledQuantity := by
      rw [← release_filledQuantity st.account (st.getPosition order.key) order]
      unfold endedOrder Order.closed
      split_ifs <;> rfl
    rw [closeOrder_eq]
    exact goes.rewrite listed active (endedOrder_terms st order status reason) filled.ge prefix_rfl rfl
  fill _ _ st order e _ goes listed active fits _ :=
    goes.rewrite listed active (applyFill_terms st order e) (applyFill_progress fits.quantity_pos).1
      (applyFill_progress fits.quantity_pos).2 (applyFill_orders st order e listed)
  mark event _ st position rule _ goes _ _ _ := by
    have frame := markedState_frame money st position event.bar rule
    exact goes.of_append frame.fills (frame.orders ▸ prefix_rfl)
  books st st' same goes := goes.of_append same.fills (same.orders ▸ prefix_rfl)
  place st decisionId now target placed _ goes _ done := by
    obtain ⟨rule, -, placement⟩ := targetToOrder_placement done
    obtain ⟨st', placed⟩ := placed
    cases placement with
    | satisfied => exact goes
    | refused => exact goes.of_append rfl (prefix_append _ _)
    | opened => exact goes.of_append rfl (prefix_append _ _)
    | closed => exact goes.of_append rfl (prefix_append _ _)

/-- In every run the fills and the orders stay in their places, and an ended order is not touched again. -/
theorem session_goes_on (money : ℚ → ℚ) (reached : Reachable money (fun _ _ => True) st)
    (actions : List Action) : Sound (runCalls money st actions) ∧ GoesOn st (runCalls money st actions) := by
  have start : GoesOn st st := ⟨prefix_rfl, fun place order entry => ⟨order, entry, .refl order⟩⟩
  have keeps : ∀ (later : State) (action : Action), Sound later ∧ GoesOn st later →
      Sound (step money later action) ∧ GoesOn st (step money later action) := by
    rintro later action ⟨sound, goes⟩
    have meets : action.Meets money (fun _ _ => True) (fun _ _ => True) later := by
      cases action with
      | submitDecision decision now => exact targetsMeet_of_forall fun _ _ => trivial
      | _ => trivial
    have recovered : GoesOn st (recoverSession money later).1 := by
      unfold recoverSession
      simp only
      split <;> exact goes.of_append rfl prefix_rfl
    exact (goesOn_kept st).step sound goes meets fun _ => recovered
  exact @Runs.run_invariant _ _ (step money) (fun later => Sound later ∧ GoesOn st later) st
    ⟨Sound.reachable reached, start⟩ keeps actions

theorem session_goes_on_trading :
    Sound (runCalls id (runCalls id (sampleSession id) (tradingRun.take 2)) [nextDay]) ∧
      GoesOn (runCalls id (sampleSession id) (tradingRun.take 2))
        (runCalls id (runCalls id (sampleSession id) (tradingRun.take 2)) [nextDay]) :=
  session_goes_on id (show Reachable id (fun _ _ => True) (runCalls id (sampleSession id) (tradingRun.take 2)) from
    (Reachable.opened (sampleSession_opened id)).calls ⟨trivial, trivial, trivial⟩) [nextDay]

end History

end FinDashboard.Simulation
