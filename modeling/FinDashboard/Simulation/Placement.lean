import FinDashboard.Simulation.Calls

/-!
# What a target places

A target is satisfied, is refused with a rejected row, or reserves cash or position for one
new order. Each case says which rows it leaves; the decision is a loop of these.
-/

namespace FinDashboard.Simulation

open Ledger Except

variable {money : ℚ → ℚ} {st st' : State} {decisionId : String} {now : Timestamp}
  {target : SimulationTarget}

def SimulationTarget.key (target : SimulationTarget) : String × PositionSide :=
  (target.symbol, target.positionSide)

/-- What the position of a target still lacks. -/
def targetDelta (st : State) (target : SimulationTarget) : ℚ :=
  target.targetQuantity - projectedQuantity st target.symbol target.positionSide

/-- The terms a target asks for. -/
structure DemandedTerms (st : State) (target : SimulationTarget) (rule : SimulationAssetRule)
    (terms : OrderTerms) : Prop where
  resolved : terms.rule = rule
  quantity : terms.quantity = rule.rule.roundToLot |targetDelta st target|
  quantity_pos : 0 < terms.quantity
  position : terms.position = st.getPosition target.key
  effect : terms.effect = if 0 < targetDelta st target then .open else .close

variable {rule : SimulationAssetRule}

/-- The demand is decided by the lots the position lacks. -/
theorem targetDemand_cases {demand : TargetDemand} (h : targetDemand st target rule = .ok demand) :
    (demand = .satisfied ∧ targetDelta st target = 0) ∨
      (demand = .belowLot ∧ rule.rule.roundToLot |targetDelta st target| ≤ 0) ∨
      ∃ terms, demand = .order terms ∧ DemandedTerms st target rule terms := by
  unfold targetDemand at h
  cases hlatest : st.latestMarketEvent target.symbol with
  | none =>
    rw [hlatest] at h
    cases h
  | some latest =>
    simp only [hlatest] at h
    change (if targetDelta st target = 0 then _ else if rule.rule.roundToLot
      |targetDelta st target| ≤ 0 then _ else _) = _ at h
    by_cases hzero : targetDelta st target = 0
    · rw [if_pos hzero] at h
      exact Or.inl ⟨(ok.inj h).symm, hzero⟩
    · rw [if_neg hzero] at h
      by_cases hnone : rule.rule.roundToLot |targetDelta st target| ≤ 0
      · rw [if_pos hnone] at h
        exact Or.inr (Or.inl ⟨(ok.inj h).symm, hnone⟩)
      · rw [if_neg hnone] at h
        exact Or.inr (Or.inr ⟨_, (ok.inj h).symm, ⟨rfl, rfl, not_le.mp hnone, rfl, rfl⟩⟩)

variable {terms : OrderTerms}

theorem targetDemand_order (h : targetDemand st target rule = .ok (.order terms)) :
    DemandedTerms st target rule terms := by
  obtain ⟨hsatisfied, -⟩ | ⟨hbelow, -⟩ | ⟨found, hfound, hterms⟩ := targetDemand_cases h
  · cases hsatisfied
  · cases hbelow
  · rw [TargetDemand.order.inj hfound]
    exact hterms

theorem targetDemand_satisfied
    (h : targetDemand st target rule = .ok .satisfied) : targetDelta st target = 0 := by
  obtain ⟨-, hzero⟩ | ⟨hbelow, -⟩ | ⟨found, hfound, -⟩ := targetDemand_cases h
  · exact hzero
  · cases hbelow
  · cases hfound

theorem State.addOrder_orders (st : State) (order : Order) :
    (st.addOrder order).orders = st.orders ++ [order] := rfl

/-- The rows after cash was frozen. -/
def State.cashReserved (st : State) (required : ℚ) : State :=
  { st with account := { st.account with
      cash := st.account.cash - required, frozenCash := st.account.frozenCash + required } }

/-- The position after a part of it was frozen. -/
def Position.reserved (position : Position) (quantity : ℚ) : Position :=
  { position with
    frozenQuantity := position.frozenQuantity + quantity
    availableQuantity := position.availableQuantity - quantity }

/-- The checks an opening order of these terms passes. -/
structure Admits (st : State) (symbol : String) (terms : OrderTerms) : Prop where
  order : checkOrder st terms = .ok ()
  exposure : checkExposure st symbol terms = .ok ()
  margin : checkMargin st terms (requiredCash st.session.config terms.rule terms.notional) = .ok ()
  cash : requiredCash st.session.config terms.rule terms.notional ≤ st.account.cash

theorem unit_bind_eq_ok {ε β : Type} {x : Except ε Unit} {f : Unit → Except ε β} {b : β} :
    (x >>= f) = .ok b ↔ x = .ok () ∧ f () = .ok b := by
  rw [bind_eq_ok]
  constructor
  · rintro ⟨u, hx, hf⟩
    exact ⟨hx, hf⟩
  · rintro ⟨hx, hf⟩
    exact ⟨(), hx, hf⟩

theorem reserveCash_ok {required : ℚ} (h : reserveCash st required = .ok st') :
    required ≤ st.account.cash ∧ st' = st.cashReserved required := by
  unfold reserveCash at h
  by_cases hshort : st.account.cash < required
  · rw [if_pos hshort] at h
    cases h
  · rw [if_neg hshort] at h
    exact ⟨not_lt.mp hshort, (ok.inj h).symm⟩

theorem reservePosition_ok (h : reservePosition st terms = .ok st') :
    ∃ position, terms.position = some position ∧ terms.quantity ≤ position.availableQuantity ∧
      st' = st.setPosition (position.reserved terms.quantity) := by
  unfold reservePosition at h
  cases hposition : terms.position with
  | none =>
    rw [hposition] at h
    cases h
  | some position =>
    rw [hposition] at h
    by_cases hshort : position.availableQuantity < terms.quantity
    · simp only [if_pos hshort] at h
      cases h
    · simp only [if_neg hshort] at h
      exact ⟨position, rfl, not_lt.mp hshort, (ok.inj h).symm⟩

theorem checkOrder_room (h : checkOrder st terms = .ok ()) :
    st.activeCount < st.session.config.risk.maxActiveOrders :=
  require_eq_ok.mp (unit_bind_eq_ok.mp h).1

theorem riskAndReserve_ok {symbol : String} {reserved : Reserved}
    (h : riskAndReserve money st symbol terms = .ok reserved) :
    (terms.effect = .open ∧ Admits st symbol terms ∧ reserved.state =
        st.cashReserved (requiredCash st.session.config terms.rule terms.notional) ∧
      reserved.cash = money (requiredCash st.session.config terms.rule terms.notional) ∧
      reserved.quantity = 0) ∨ (terms.effect = .close ∧ checkOrder st terms = .ok () ∧ ∃ position,
      terms.position = some position ∧ terms.quantity ≤ position.availableQuantity ∧
      reserved.state = st.setPosition (position.reserved terms.quantity) ∧ reserved.cash = 0 ∧
      reserved.quantity = terms.quantity) := by
  obtain ⟨hcheck, h⟩ := unit_bind_eq_ok.mp h
  cases heffect : terms.effect with
  | «open» =>
    left
    rw [heffect] at h
    obtain ⟨hexposure, h⟩ := unit_bind_eq_ok.mp h
    obtain ⟨hmargin, h⟩ := unit_bind_eq_ok.mp h
    obtain ⟨state, hstate, h⟩ := bind_eq_ok.mp h
    obtain ⟨hcash, hreserved⟩ := reserveCash_ok hstate
    rw [← ok.inj h]
    exact ⟨rfl, ⟨hcheck, hexposure, hmargin, hcash⟩, hreserved, rfl, rfl⟩
  | close =>
    right
    rw [heffect] at h
    obtain ⟨state, hstate, h⟩ := bind_eq_ok.mp h
    obtain ⟨position, hposition, havailable, hreserved⟩ := reservePosition_ok hstate
    rw [← ok.inj h]
    exact ⟨rfl, hcheck, position, hposition, havailable, hreserved, rfl, rfl⟩

def refusedRow (st : State) (decisionId : String) (target : SimulationTarget) (effect : PositionEffect)
    (quantity : ℚ) (eligibleAfter : Timestamp) (reason : Reason) (message : List MessagePart) : Order :=
  { orderRow st decisionId target effect quantity eligibleAfter .rejected with
    rejectReason := some reason, rejectMessage := some message }

def acceptedRow (st : State) (decisionId : String) (target : SimulationTarget) (terms : OrderTerms)
    (reservedCash reservedQuantity : ℚ) : Order :=
  { orderRow st decisionId target terms.effect terms.quantity terms.marketAt .acknowledged with
    reservedCash, reservedQuantity }

/-- What `_target_to_order` leaves. -/
inductive Placement (money : ℚ → ℚ) (st : State) (decisionId : String) (target : SimulationTarget)
    (rule : SimulationAssetRule) : State → Option Order → Prop
  | satisfied (h : targetDelta st target = 0) : Placement money st decisionId target rule st none
  | refused (effect : PositionEffect) (quantity : ℚ) (eligibleAfter : Timestamp) (reason : Reason)
      (message : List MessagePart) : Placement money st decisionId target rule
        (st.addOrder (refusedRow st decisionId target effect quantity eligibleAfter reason message))
        (some (refusedRow st decisionId target effect quantity eligibleAfter reason message))
  | opened {terms : OrderTerms} (hterms : DemandedTerms st target rule terms)
      (hdemand : targetDemand st target rule = .ok (.order terms))
      (heffect : terms.effect = .open) (hadmits : Admits st target.symbol terms)
      (hshort : target.positionSide = .short → st.session.config.risk.allowShort = true) :
      Placement money st decisionId target rule
        ((st.cashReserved (requiredCash st.session.config rule terms.notional)).addOrder
          (acceptedRow st decisionId target terms
            (money (requiredCash st.session.config rule terms.notional)) 0))
        (some (acceptedRow st decisionId target terms
          (money (requiredCash st.session.config rule terms.notional)) 0))
  | closed {terms : OrderTerms} {position : Position} (hterms : DemandedTerms st target rule terms)
      (heffect : terms.effect = .close) (hroom : checkOrder st terms = .ok ())
      (hposition : st.getPosition target.key = some position)
      (havailable : terms.quantity ≤ position.availableQuantity) :
      Placement money st decisionId target rule
        ((st.setPosition (position.reserved terms.quantity)).addOrder
          (acceptedRow st decisionId target terms 0 terms.quantity))
        (some (acceptedRow st decisionId target terms 0 terms.quantity))

theorem placeOrder_placement {placed : State × Order}
    (hdemand : targetDemand st target rule = .ok (.order terms))
    (hshort : target.positionSide = .short → st.session.config.risk.allowShort = true)
    (h : placeOrder money st decisionId target terms = .ok placed) :
    Placement money st decisionId target rule placed.1 (some placed.2) := by
  have hterms := targetDemand_order hdemand
  unfold placeOrder at h
  cases hreserve : riskAndReserve money st target.symbol terms with
  | error error =>
    rw [hreserve] at h
    cases error with
    | risk error =>
      rw [← ok.inj h]
      exact .refused terms.effect terms.quantity terms.marketAt error.reason error.message
    | _ => cases h
  | ok reserved =>
    rw [hreserve] at h
    rw [← ok.inj h]
    obtain ⟨heffect, hadmits, hstate, hcash, hquantity⟩ |
      ⟨heffect, hroom, position, hposition, havailable, hstate, hcash, hquantity⟩ :=
      riskAndReserve_ok hreserve
    · simp only [hstate, hcash, hquantity, hterms.resolved]
      exact .opened hterms hdemand heffect hadmits hshort
    · simp only [hstate, hcash, hquantity]
      rw [hterms.position] at hposition
      exact .closed hterms heffect hroom hposition havailable

theorem targetToOrder_placement {placed : State × Option Order}
    (h : targetToOrder money st decisionId now target = .ok placed) :
    ∃ rule, resolveSimulationRule target.assetRuleKey target.market target.instrumentType
        target.symbol = .ok rule ∧ Placement money st decisionId target rule placed.1 placed.2 := by
  unfold targetToOrder at h
  cases hrule : resolveSimulationRule target.assetRuleKey target.market target.instrumentType
      target.symbol with
  | error error =>
    rw [hrule] at h
    cases h
  | ok rule =>
    rw [hrule] at h
    refine ⟨rule, rfl, ?_⟩
    by_cases hshort : target.positionSide = .short ∧ st.session.config.risk.allowShort = false
    · simp only [if_pos hshort] at h
      rw [← ok.inj h]
      exact .refused .open target.targetQuantity (st.session.clock.getD now) .shortNotAllowed _
    · have hallowed : target.positionSide = .short → st.session.config.risk.allowShort = true := by
        simpa using hshort
      simp only [if_neg hshort] at h
      cases hdemand : targetDemand st target rule with
      | error error =>
        rw [hdemand] at h
        cases h
      | ok demand =>
        rw [hdemand] at h
        cases demand with
        | satisfied =>
          rw [← ok.inj h]
          exact .satisfied (targetDemand_satisfied hdemand)
        | belowLot =>
          rw [← ok.inj h]
          exact .refused .open target.targetQuantity (st.session.clock.getD now) .invalidQuantity _
        | order terms =>
          simp only at h
          cases hplaced : placeOrder money st decisionId target terms with
          | error error =>
            rw [hplaced] at h
            cases h
          | ok row =>
            rw [hplaced] at h
            rw [← ok.inj h]
            exact placeOrder_placement hdemand hallowed hplaced

end FinDashboard.Simulation
