import FinDashboard.Backtest.MatchSteps

/-!
# Runs of the paper broker

What each call does with the pending orders, and the dates a run goes through.
-/

namespace FinDashboard.Backtest

open Ledger List
open Simulation (Bar Date)

variable {config : BrokerConfig} {today : Date} {st : State} {order : Order} {bar : Bar}
  {P : State → Prop} {before after : Order → OrderState → Prop} {actions : List Action}

def State.pending (st : State) : Pending := st.pendingOrders ++ st.pendingLimit

/-- Each pending order has an object of its own, of which something is known. -/
structure Waiting (B : Order → OrderState → Prop) (st : State) : Prop where
  listed : ∀ entry ∈ st.pending, Holds B st entry.2
  distinct : (places st.pending).Nodup

namespace Waiting

variable {B : Order → OrderState → Prop} {st' : State}

theorem imp {B' : Order → OrderState → Prop} (h : Waiting B st)
    (himp : ∀ order state, B order state → B' order state) : Waiting B' st := by
  refine ⟨?_, h.distinct⟩
  intro entry hentry
  obtain ⟨order, hlisted, hB⟩ := h.listed entry hentry
  exact ⟨order, hlisted, himp _ _ hB⟩

theorem lt_length (h : Waiting B st) {place : ℕ} (hplace : place ∈ places st.pending) :
    place < st.orders.length := by
  obtain ⟨entry, hentry, rfl⟩ := mem_map.mp hplace
  obtain ⟨order, hlisted, -⟩ := h.listed entry hentry
  exact (List.getElem?_eq_some_iff.mp hlisted).1

/-- Fewer pending orders, whose objects stay as they are. -/
theorem of_sublist (h : Waiting B st) (hsub : st'.pending.Sublist st.pending)
    (horders : ∀ place ∈ places st'.pending, st'.orders[place]? = st.orders[place]?) : Waiting B st' := by
  constructor
  · intro entry hentry
    apply (h.listed entry (hsub.mem hentry)).of_orders_eq
    exact horders _ (mem_map.mpr ⟨entry, hentry, rfl⟩)
  · exact h.distinct.sublist (hsub.map _)

end Waiting

theorem TurnRule.and {Q : State → Prop} (hrule : TurnRule config today bar P before after)
    (hkept : ∀ st state order result, Tried today st state order result → Q st → Q result.1) :
    TurnRule config today bar (fun st => P st ∧ Q st) before after := by
  refine ⟨hrule.passes, ?_⟩
  intro st state order result hP hbefore hlisted hpass htried
  obtain ⟨hP', hafter⟩ := hrule.turn st state order result hP.1 hbefore hlisted hpass htried
  exact ⟨⟨hP', hkept st state order result htried hP.2⟩, hafter⟩

variable {meets : State → OrderState → Order → Prop}

theorem LoopRule.and {tryFill : TryFill} {Q : State → Prop}
    (hrule : LoopRule tryFill meets config today bar P before after)
    (hkept : ∀ st state order result, Tried today st state order result → Q st → Q result.1) :
    LoopRule tryFill meets config today bar (fun st => P st ∧ Q st) before after where
  passes := hrule.passes
  tries := hrule.tries
  turn st state order hP hbefore hlisted hpass hmeets :=
    have hturn := hrule.turn st state order hP.1 hbefore hlisted hpass hmeets
    ⟨⟨hturn.1, hkept st state order _ (hrule.tries st state order) hP.2⟩, hturn.2⟩

/-- The pending orders after the market loop, which have had their turn, and those before the
limit loop. -/
structure Halfway (before after : Order → OrderState → Prop) (st : State) : Prop where
  market : ∀ entry ∈ st.pendingOrders, Holds after st entry.2
  limit : ∀ entry ∈ st.pendingLimit, Holds before st entry.2
  distinct : (places st.pendingOrders ++ places st.pendingLimit).Nodup

theorem matchMarketOrders_rule
    (hrule : LoopRule (tryFillMarket config today) meets config today bar P before after)
    (hframe : ∀ st pendingOrders pendingLimit, P st → P { st with pendingOrders, pendingLimit })
    (hP : P st) (hwait : Waiting before st)
    (hmeets : TurnsMeet (tryFillMarket config today) meets config today bar st.pendingOrders st) :
    P (matchMarketOrders config today bar st) ∧
      Halfway before after (matchMarketOrders config today bar st) := by
  have hdistinct : (places st.pendingOrders ++ places st.pendingLimit).Nodup := by
    have hall := hwait.distinct
    unfold State.pending places at hall
    rw [map_append] at hall
    exact hall
  obtain ⟨hmarket, hlimit, hapart⟩ := nodup_append.mp hdistinct
  have hrule₁ : LoopRule (tryFillMarket config today) meets config today bar
      (fun st' => P st' ∧ st'.pendingLimit = st.pendingLimit) before after :=
    hrule.and fun _ _ _ _ htried hsame => htried.pending_eq.2.1.trans hsame
  have hbefore : ∀ entry ∈ st.pendingOrders, Holds before st entry.2 := fun entry hentry =>
    hwait.listed entry (mem_append_left _ hentry)
  obtain ⟨⟨hP', hsame⟩, hkept, hsub, horders⟩ :=
    hrule₁.matchEntries ⟨hP, rfl⟩ hbefore hmarket hmeets
  unfold matchMarketOrders
  simp only
  generalize matchEntries (tryFillMarket config today) config today bar st.pendingOrders st = result
    at hP' hsame hkept hsub horders
  refine ⟨hframe result.1 result.2 result.1.pendingLimit hP', hkept, ?_, ?_⟩
  · intro entry hentry
    have hthere := hsame ▸ hentry
    apply (hwait.listed entry (mem_append_right _ hthere)).of_orders_eq
    apply horders
    intro hplace
    exact hapart _ hplace _ (mem_map.mpr ⟨entry, hthere, rfl⟩) rfl
  · have hlists := hdistinct.sublist (hsub.append (List.Sublist.refl _))
    rw [← hsame] at hlists
    exact hlists

theorem matchLimitOrders_rule
    (hrule : LoopRule (tryFillLimit config today) meets config today bar P before after)
    (hframe : ∀ st pendingOrders pendingLimit, P st → P { st with pendingOrders, pendingLimit })
    (hP : P st) (hhalf : Halfway before after st)
    (hmeets : TurnsMeet (tryFillLimit config today) meets config today bar st.pendingLimit st) :
    P (matchLimitOrders config today bar st) ∧ Waiting after (matchLimitOrders config today bar st) := by
  obtain ⟨-, hlimit, hapart⟩ := nodup_append.mp hhalf.distinct
  have hrule₂ : LoopRule (tryFillLimit config today) meets config today bar
      (fun st' => P st' ∧ st'.pendingOrders = st.pendingOrders) before after :=
    hrule.and fun _ _ _ _ htried hsame => htried.pending_eq.1.trans hsame
  obtain ⟨⟨hP', hsame⟩, hkept, hsub, horders⟩ :=
    hrule₂.matchEntries ⟨hP, rfl⟩ hhalf.limit hlimit hmeets
  unfold matchLimitOrders
  simp only
  generalize matchEntries (tryFillLimit config today) config today bar st.pendingLimit st = result
    at hP' hsame hkept hsub horders
  refine ⟨hframe result.1 result.1.pendingOrders result.2 hP', ?_, ?_⟩
  · intro entry hentry
    obtain hentry | hentry := mem_append.mp hentry
    · -- a market order that stays pending is not touched by the second loop
      have hthere := hsame ▸ hentry
      apply (hhalf.market entry hthere).of_orders_eq
      apply horders
      intro hplace
      exact hapart _ (mem_map.mpr ⟨entry, hthere, rfl⟩) _ hplace rfl
    · exact hkept entry hentry
  · have hlists := hhalf.distinct.sublist ((List.Sublist.refl _).append hsub)
    rw [← hsame] at hlists
    unfold State.pending places
    rw [map_append]
    exact hlists

/-- Every turn of a bar meets the condition of its loop. -/
def BarMeets (market limit : State → OrderState → Order → Prop) (config : BrokerConfig) (today : Date)
    (bar : Bar) (st : State) : Prop :=
  TurnsMeet (tryFillMarket config today) market config today bar st.pendingOrders st ∧
    TurnsMeet (tryFillLimit config today) limit config today bar
      (matchMarketOrders config today bar st).pendingLimit (matchMarketOrders config today bar st)

instance {market limit : State → OrderState → Order → Prop}
    [∀ st state order, Decidable (market st state order)]
    [∀ st state order, Decidable (limit st state order)] (st : State) :
    Decidable (BarMeets market limit config today bar st) :=
  inferInstanceAs (Decidable (_ ∧ _))

/-- A bar whose turns meet their conditions is carried through by the rules of the loops. -/
theorem matchPendingOrders_meeting {market limit : State → OrderState → Order → Prop}
    (hmarket : LoopRule (tryFillMarket config today) market config today bar P before after)
    (hlimit : LoopRule (tryFillLimit config today) limit config today bar P before after)
    (hframe : ∀ st pendingOrders pendingLimit, P st → P { st with pendingOrders, pendingLimit })
    (hP : P st) (hwait : Waiting before st) (hmeets : BarMeets market limit config today bar st) :
    P (matchPendingOrders config today bar st) ∧
      Waiting after (matchPendingOrders config today bar st) := by
  obtain ⟨hP', hhalf⟩ := matchMarketOrders_rule hmarket hframe hP hwait hmeets.1
  exact matchLimitOrders_rule hlimit hframe hP' hhalf hmeets.2

theorem matchPendingOrders_rule (hrule : TurnRule config today bar P before after)
    (hframe : ∀ st pendingOrders pendingLimit, P st → P { st with pendingOrders, pendingLimit })
    (hP : P st) (hwait : Waiting before st) : P (matchPendingOrders config today bar st) ∧
      Waiting after (matchPendingOrders config today bar st) :=
  matchPendingOrders_meeting (hrule.loopRule (tryFillMarket_tried config today · · · bar))
    (hrule.loopRule (tryFillLimit_tried config today · · · bar)) hframe hP hwait
    ⟨turnsMeet_trivial _ _, turnsMeet_trivial _ _⟩

section Places

variable {clientOrderId : ClientOrderId} {state : OrderState} {entries others : Pending}

/-- A pending order with a new object, assigned in front of other pending orders. -/
theorem places_assign_append (h : (places entries ++ places others).Nodup)
    (hfresh : state.order ∉ places entries ++ places others) :
    (places (assign clientOrderId state entries) ++ places others).Nodup := by
  obtain ⟨hentries, hothers, hapart⟩ := nodup_append.mp h
  obtain ⟨hnew, hnot⟩ := not_or.mp (mt mem_append.mpr hfresh)
  refine nodup_append.mpr ⟨nodup_map_assign _ hentries hnew, hothers, ?_⟩
  intro place hplace other hother
  obtain ⟨entry, hentry, rfl⟩ := mem_map.mp hplace
  obtain rfl | hold := mem_assign hentry
  · intro hsame
    exact hnot (hsame ▸ hother)
  · exact hapart _ (mem_map.mpr ⟨entry, hold, rfl⟩) _ hother

theorem places_append_assign (h : (places others ++ places entries).Nodup)
    (hfresh : state.order ∉ places others ++ places entries) :
    (places others ++ places (assign clientOrderId state entries)).Nodup := by
  have hswap : state.order ∉ places entries ++ places others := fun hmem =>
    hfresh (perm_append_comm.mem_iff.mp hmem)
  have hdistinct := perm_append_comm.nodup_iff.mp h
  exact perm_append_comm.nodup_iff.mp (places_assign_append hdistinct hswap)

end Places

def Order.accepted (order : Order) (quantity : ℚ) (idCounter : ℕ) : Order :=
  { order with
    quantity, status := .submitted, brokerOrderId := some (toString idCounter) }

/-- What placing an order comes to. -/
inductive Placed (config : BrokerConfig) (st : State) (order : Order) : State → Prop
  | refused (order' : Order) (ordersById : List (ClientOrderId × ℕ)) (events : List BrokerEvent)
      (hstatus : order'.status = .rejected ∨ order'.status = order.status)
      (hfilled : order'.filledQuantity = order.filledQuantity) :
      Placed config st order
        { st with orders := st.orders ++ [order'], ordersById, events }
  | accepted (state : OrderState) (slippageBps quantity : ℚ)
      (ordersById : List (ClientOrderId × ℕ)) (events : List BrokerEvent)
      (pendingOrders pendingLimit : Pending) (hplace : state.order = st.orders.length)
      (hdate : st.currentDate = some state.submittedOn)
      (hrule : config.resolveRule order.symbol.code = .ok (state.rule, slippageBps))
      (hpending : pendingOrders = st.pendingOrders ∧
          pendingLimit = assign order.clientOrderId state st.pendingLimit ∨
        pendingOrders = assign order.clientOrderId state st.pendingOrders ∧
          pendingLimit = st.pendingLimit) :
      Placed config st order
        { st with orders := st.orders ++ [order.accepted quantity st.idCounter],
                  idCounter := st.idCounter + 1, ordersById, events, pendingOrders, pendingLimit }

theorem accept_placed (quantity : ℚ) {rule : AssetRule} {slippageBps : ℚ}
    (hdate : st.currentDate = some today)
    (hrule : config.resolveRule order.symbol.code = .ok (rule, slippageBps)) :
    Placed config st order (st.accept { order with quantity } rule slippageBps today).1 := by
  let state : OrderState :=
    { order := st.orders.length, rule, slippageBps, submittedOn := today, remaining := quantity }
  unfold State.accept
  simp only
  split
  · exact .accepted state slippageBps quantity _ _ _ _ rfl hdate hrule (Or.inl ⟨rfl, rfl⟩)
  · exact .accepted state slippageBps quantity _ _ _ _ rfl hdate hrule (Or.inr ⟨rfl, rfl⟩)

theorem placeOrder_placed (config : BrokerConfig) (st : State) (order : Order) :
    Placed config st order (placeOrder config st order).1 := by
  have hrefuse : ∀ reason message, Placed config st order (st.refuse order reason message).1 :=
    fun reason message => .refused (order.rejected reason message) _ _ (Or.inl rfl) rfl
  unfold placeOrder
  cases hdate : st.currentDate with
  | none =>
    have hrefused : (order.rejected .brokerRejected [.text "尚未收到任何 Bar,无法下单"]).status =
        .rejected := rfl
    exact .refused _ _ _ (Or.inl hrefused) rfl
  | some today =>
    simp only
    cases hrule : config.resolveRule order.symbol.code with
    | error error =>
      cases error with
      | resolution market instrumentType => exact hrefuse _ _
      | value => exact .refused order _ _ (Or.inr rfl) rfl
    | ok found =>
      simp only
      split_ifs with hround hless
      · exact hrefuse _ _
      · exact accept_placed _ hdate hrule
      · exact accept_placed order.quantity hdate hrule

theorem Placed.currentDate_eq {st' : State} (h : Placed config st order st') :
    st'.currentDate = st.currentDate := by
  cases h <;> rfl

theorem Placed.ledger_eq {st' : State} (h : Placed config st order st') :
    st'.cash = st.cash ∧ st'.positions = st.positions ∧ st'.fills = st.fills := by
  cases h <;> exact ⟨rfl, rfl, rfl⟩

theorem Placed.length_le {st' : State} (h : Placed config st order st') :
    st.orders.length ≤ st'.orders.length := by
  cases h <;> simp

/-- Placing adds at most one pending order, with a new object. -/
theorem Placed.waiting {B : Order → OrderState → Prop} {st' : State} (h : Placed config st order st')
    (hwait : Waiting B st) (hnew : ∀ state slippageBps quantity, state.order = st.orders.length →
      st.currentDate = some state.submittedOn →
      config.resolveRule order.symbol.code = .ok (state.rule, slippageBps) →
      B (order.accepted quantity st.idCounter) state) : Waiting B st' := by
  cases h with
  | refused order' ordersById events hstatus hfilled =>
    refine hwait.of_sublist (List.Sublist.refl st.pending) ?_
    intro place hplace
    exact List.getElem?_append_left (hwait.lt_length hplace)
  | accepted state slippageBps quantity ordersById events pendingOrders pendingLimit hplace hdate
      hrule hpending =>
    have hB := hnew state slippageBps quantity hplace hdate hrule
    have hdistinct : (places st.pendingOrders ++ places st.pendingLimit).Nodup := by
      have hall := hwait.distinct
      unfold State.pending places at hall
      rw [map_append] at hall
      exact hall
    have hfresh : state.order ∉ places st.pendingOrders ++ places st.pendingLimit := by
      unfold places
      rw [← map_append, hplace]
      intro hold
      exact lt_irrefl _ (hwait.lt_length hold)
    have hmem : ∀ entry ∈ pendingOrders ++ pendingLimit,
        entry = (order.clientOrderId, state) ∨ entry ∈ st.pending := by
      intro entry hentry
      obtain ⟨rfl, rfl⟩ | ⟨rfl, rfl⟩ := hpending
      · obtain hmarket | hlimit := mem_append.mp hentry
        · exact Or.inr (mem_append_left _ hmarket)
        · exact (mem_assign hlimit).imp_right (mem_append_right _)
      · obtain hmarket | hlimit := mem_append.mp hentry
        · exact (mem_assign hmarket).imp_right (mem_append_left _)
        · exact Or.inr (mem_append_right _ hlimit)
    constructor
    · intro entry hentry
      obtain rfl | hold := hmem entry hentry
      · refine ⟨order.accepted quantity st.idCounter, ?_, hB⟩
        rw [hplace, List.getElem?_append_right (le_refl _), Nat.sub_self]
        rfl
      · apply (hwait.listed entry hold).of_orders_eq
        exact List.getElem?_append_left
          (hwait.lt_length (mem_map.mpr ⟨entry, hold, rfl⟩))
    · unfold State.pending places
      rw [map_append]
      obtain ⟨rfl, rfl⟩ | ⟨rfl, rfl⟩ := hpending
      · exact places_append_assign hdistinct hfresh
      · exact places_assign_append hdistinct hfresh

/-- What cancelling comes to. -/
inductive Cancelled (st : State) : State → Prop
  | unknown : Cancelled st st
  | cancelled (state : OrderState) (order : Order) (pendingOrders pendingLimit : Pending)
      (events : List BrokerEvent) (hpending : state.order ∈ places st.pending)
      (hlisted : st.orders[state.order]? = some order)
      (hsub : (pendingOrders ++ pendingLimit).Sublist st.pending)
      (hapart : state.order ∉ places (pendingOrders ++ pendingLimit)) :
      Cancelled st { st with
        pendingOrders, pendingLimit, events,
        orders := st.orders.set state.order { order with status := .cancelled } }

theorem popPending_some {clientOrderId : ClientOrderId} {state : OrderState}
    (hdistinct : (places st.pending).Nodup) (h : (st.popPending clientOrderId).2 = some state) :
    ∃ pendingOrders pendingLimit,
      (st.popPending clientOrderId).1 = { st with pendingOrders, pendingLimit } ∧
      state.order ∈ places st.pending ∧ (pendingOrders ++ pendingLimit).Sublist st.pending ∧
      state.order ∉ places (pendingOrders ++ pendingLimit) := by
  unfold State.pending places at hdistinct
  rw [map_append] at hdistinct
  obtain ⟨hmarket, hlimit, hapart⟩ := nodup_append.mp hdistinct
  unfold State.popPending at h ⊢
  cases hfind : find clientOrderId st.pendingOrders with
  | some found =>
    simp only [hfind] at h ⊢
    obtain rfl := Option.some.inj h
    have hmem := mem_of_find hfind
    have hgone := mark_of_remove (fun entry : ClientOrderId × OrderState => entry.2.order) hmarket hmem
    refine ⟨_, _, rfl, ?_, (remove_sublist _ _).append (List.Sublist.refl _), ?_⟩
    · exact mem_map.mpr ⟨_, mem_append_left _ hmem, rfl⟩
    · unfold places
      rw [map_append]
      intro hstill
      obtain hkept | hother := mem_append.mp hstill
      · exact hgone hkept
      · exact hapart _ (mem_map.mpr ⟨_, hmem, rfl⟩) _ hother rfl
  | none =>
    simp only [hfind] at h ⊢
    cases hfindLimit : find clientOrderId st.pendingLimit with
    | none =>
      rw [hfindLimit] at h
      cases h
    | some found =>
      simp only [hfindLimit] at h ⊢
      obtain rfl := Option.some.inj h
      have hmem := mem_of_find hfindLimit
      have hgone := mark_of_remove (fun entry : ClientOrderId × OrderState => entry.2.order) hlimit hmem
      refine ⟨_, _, rfl, ?_, (List.Sublist.refl _).append (remove_sublist _ _), ?_⟩
      · exact mem_map.mpr ⟨_, mem_append_right _ hmem, rfl⟩
      · unfold places
        rw [map_append]
        intro hstill
        obtain hother | hkept := mem_append.mp hstill
        · exact hapart _ hother _ (mem_map.mpr ⟨_, hmem, rfl⟩) rfl
        · exact hgone hkept

theorem popPending_none {clientOrderId : ClientOrderId}
    (h : (st.popPending clientOrderId).2 = none) : (st.popPending clientOrderId).1 = st := by
  unfold State.popPending at h ⊢
  cases hfind : find clientOrderId st.pendingOrders with
  | some found =>
    rw [hfind] at h
    cases h
  | none =>
    cases hfindLimit : find clientOrderId st.pendingLimit with
    | some found =>
      rw [hfind, hfindLimit] at h
      cases h
    | none => rfl

theorem cancelOrder_cancelled {B : Order → OrderState → Prop} (hwait : Waiting B st)
    (clientOrderId : ClientOrderId) : Cancelled st (cancelOrder st clientOrderId) := by
  unfold cancelOrder
  cases hpop : st.popPending clientOrderId with
  | mk popped found =>
    cases found with
    | none =>
      have hsame := popPending_none (congrArg Prod.snd hpop)
      rw [hpop] at hsame
      simp only at hsame ⊢
      rw [hsame]
      exact .unknown
    | some state =>
      obtain ⟨pendingOrders, pendingLimit, hrest, hpending, hsub, hapart⟩ :=
        popPending_some hwait.distinct (congrArg Prod.snd hpop)
      rw [hpop] at hrest
      obtain ⟨entry, hentry, hplace⟩ := mem_map.mp hpending
      obtain ⟨order, hlisted, -⟩ := hwait.listed entry hentry
      rw [hplace] at hlisted
      simp only at hrest ⊢
      rw [hrest]
      simp only [hlisted]
      split_ifs
      · exact .cancelled state order pendingOrders pendingLimit _ hpending hlisted hsub hapart
      · exact .cancelled state order pendingOrders pendingLimit _ hpending hlisted hsub hapart

theorem Cancelled.currentDate_eq {st' : State} (h : Cancelled st st') :
    st'.currentDate = st.currentDate := by
  cases h <;> rfl

theorem Cancelled.ledger_eq {st' : State} (h : Cancelled st st') :
    st'.cash = st.cash ∧ st'.positions = st.positions ∧ st'.fills = st.fills := by
  cases h <;> exact ⟨rfl, rfl, rfl⟩

theorem Cancelled.length_le {st' : State} (h : Cancelled st st') :
    st.orders.length ≤ st'.orders.length := by
  cases h <;> simp

/-- Cancelling rewrites no object of an order that stays pending. -/
theorem Cancelled.waiting {B : Order → OrderState → Prop} {st' : State} (h : Cancelled st st')
    (hwait : Waiting B st) : Waiting B st' := by
  cases h with
  | unknown => exact hwait
  | cancelled state order pendingOrders pendingLimit events hpending hlisted hsub hapart =>
    refine hwait.of_sublist hsub ?_
    intro place hplace
    apply List.getElem?_set_ne
    intro hsame
    exact hapart (hsame ▸ hplace)

@[simp] theorem run_append (config : BrokerConfig) (actions : List Action) (action : Action) :
    run config (actions ++ [action]) = step config (run config actions) action := by
  unfold run
  rw [foldl_append]
  rfl

/-- If the action is a bar, it meets a condition in the state it finds. -/
def Action.Meets (meets : State → Bar → Prop) (st : State) : Action → Prop
  | .onNewBar bar => meets st bar
  | _ => True

instance {meets : State → Bar → Prop} [∀ st bar, Decidable (meets st bar)] (st : State) :
    (action : Action) → Decidable (action.Meets meets st)
  | .onNewBar bar => inferInstanceAs (Decidable (meets st bar))
  | .submitOrder .. => inferInstanceAs (Decidable True)
  | .cancelOrder _ => inferInstanceAs (Decidable True)

/-- Every bar of a sequence of actions meets a condition. -/
def EveryBar (meets : State → Bar → Prop) (config : BrokerConfig) : List Action → State → Prop
  | [], _ => True
  | action :: rest, st => action.Meets meets st ∧ EveryBar meets config rest (step config st action)

instance decidableEveryBar {meets : State → Bar → Prop} [∀ st bar, Decidable (meets st bar)] :
    (actions : List Action) → (st : State) → Decidable (EveryBar meets config actions st)
  | [], _ => inferInstanceAs (Decidable True)
  | action :: rest, st =>
      have : Decidable (EveryBar meets config rest (step config st action)) :=
        decidableEveryBar rest _
      inferInstanceAs (Decidable (action.Meets meets st ∧ _))

/-- What every step keeps, a bar under the condition, holds after the actions. -/
theorem EveryBar.kept {meets : State → Bar → Prop} (every : EveryBar meets config actions st)
    (initial : P st) (bars : ∀ st bar, P st → meets st bar → P (step config st (.onNewBar bar)))
    (submits : ∀ st clientOrderId symbol side quantity orderType price, P st →
      P (step config st (.submitOrder clientOrderId symbol side quantity orderType price)))
    (cancels : ∀ st clientOrderId, P st → P (step config st (.cancelOrder clientOrderId))) :
    P (actions.foldl (step config) st) := by
  induction actions generalizing st with
  | nil => exact initial
  | cons action rest ih =>
    apply ih every.2
    cases action with
    | onNewBar bar => exact bars st bar initial every.1
    | submitOrder clientOrderId symbol side quantity orderType price =>
      exact submits st clientOrderId symbol side quantity orderType price initial
    | cancelOrder clientOrderId => exact cancels st clientOrderId initial

/-- A pending order has not reached a terminal status, and its rule is the one of its symbol. -/
def Pended (config : BrokerConfig) (order : Order) (state : OrderState) : Prop :=
  (order.status = .submitted ∨ order.status = .partiallyFilled) ∧
    ∃ slippageBps, config.resolveRule order.symbol.code = .ok (state.rule, slippageBps)

theorem Tried.rule_eq {state : OrderState} {result : State × OrderState}
    (h : Tried today st state order result) : result.2.rule = state.rule := by
  cases h <;> rfl

/-- An order that is still open after its turn stays pending under its rule. -/
theorem Tried.pended {state : OrderState} {result : State × OrderState} {order' : Order}
    (h : Tried today st state order result) (hlisted : st.orders[state.order]? = some order)
    (hpended : Pended config order state) (horder' : result.1.orders[state.order]? = some order')
    (hopen : order'.status.isTerminal = false) : Pended config order' result.2 := by
  obtain ⟨found, hfound, -, hsymbol, -, hstatus⟩ := h.orders_eq hlisted
  obtain rfl := Option.some.inj (hfound.symm.trans horder')
  constructor
  · obtain hsame | hmem := hstatus
    · rw [hsame]
      exact hpended.1
    · simp only [mem_cons, not_mem_nil, or_false] at hmem
      obtain hrejected | hpart | hfilled := hmem
      · rw [hrejected] at hopen
        cases hopen
      · exact Or.inr hpart
      · rw [hfilled] at hopen
        cases hopen
  · rw [hsymbol, h.rule_eq]
    exact hpended.2

theorem turnRule_pended (config : BrokerConfig) (today : Date) (bar : Bar) :
    TurnRule config today bar (fun _ => True) (Pended config) (Pended config) := by
  refine ⟨fun _ _ h => h, ?_⟩
  intro st state order result _ hpended hlisted _ htried
  exact ⟨trivial, fun order' horder' hopen => htried.pended hlisted hpended horder' hopen⟩

theorem Placed.pended {st' : State} (h : Placed config st order st')
    (hwait : Waiting (Pended config) st) : Waiting (Pended config) st' := by
  apply h.waiting hwait
  intro state slippageBps quantity _ _ hrule
  exact ⟨Or.inl rfl, slippageBps, hrule⟩

theorem step_waiting (hwait : Waiting (Pended config) st) (action : Action) :
    Waiting (Pended config) (step config st action) := by
  cases action with
  | onNewBar bar =>
    have hadvanced : Waiting (Pended config) (st.advance bar) :=
      hwait.of_sublist (List.Sublist.refl st.pending) fun _ _ => rfl
    exact (matchPendingOrders_rule (turnRule_pended config _ bar) (fun _ _ _ h => h) trivial hadvanced).2
  | submitOrder clientOrderId symbol side quantity orderType price =>
    exact (placeOrder_placed config st _).pended hwait
  | cancelOrder clientOrderId => exact (cancelOrder_cancelled hwait clientOrderId).waiting hwait

theorem run_waiting (config : BrokerConfig) (actions : List Action) :
    Waiting (Pended config) (run config actions) := by
  induction actions using reverseRecOn with
  | nil =>
    constructor
    · intro entry hentry
      cases hentry
    · exact nodup_nil
  | append_singleton actions action ih =>
    rw [run_append]
    exact step_waiting ih action

theorem step_currentDate (hwait : Waiting (Pended config) st) (action : Action) :
    (step config st action).currentDate = action.date.or st.currentDate := by
  cases action with
  | onNewBar bar =>
    have hrule : TurnRule config bar.timestamp.date bar
        (fun st' => True ∧ st'.currentDate = some bar.timestamp.date) (Pended config)
        (Pended config) :=
      (turnRule_pended config _ bar).and fun _ _ _ _ htried hdate =>
        htried.pending_eq.2.2.trans hdate
    have hadvanced : Waiting (Pended config) (st.advance bar) :=
      hwait.of_sublist (List.Sublist.refl st.pending) fun _ _ => rfl
    exact (matchPendingOrders_rule hrule (fun _ _ _ h => h) ⟨trivial, rfl⟩ hadvanced).1.2
  | submitOrder clientOrderId symbol side quantity orderType price =>
    exact (placeOrder_placed config st _).currentDate_eq
  | cancelOrder clientOrderId => exact (cancelOrder_cancelled hwait clientOrderId).currentDate_eq

theorem currentDate_mem {day : Date} (h : (run config actions).currentDate = some day) :
    day ∈ actions.filterMap Action.date := by
  induction actions using reverseRecOn with
  | nil => cases h
  | append_singleton actions action ih =>
    rw [run_append, step_currentDate (run_waiting config actions)] at h
    rw [filterMap_append]
    cases hdate : action.date with
    | none =>
      rw [hdate] at h
      exact mem_append_left _ (ih h)
    | some found =>
      rw [hdate] at h
      obtain rfl := Option.some.inj h
      apply mem_append_right
      simp [hdate]

namespace Chronological

theorem of_append {action : Action} (h : Chronological (actions ++ [action])) :
    Chronological actions := by
  unfold Chronological at h
  rw [filterMap_append] at h
  exact (pairwise_append.mp h).1

theorem le_date (h : Chronological (actions ++ [.onNewBar bar])) {day : Date}
    (hday : (run config actions).currentDate = some day) : day ≤ bar.timestamp.date := by
  unfold Chronological at h
  rw [filterMap_append] at h
  exact (pairwise_append.mp h).2.2 day (currentDate_mem hday) bar.timestamp.date
    mem_cons_self

end Chronological

/-- A bar of the share `600000` at ten. -/
def shareBar (date : Date) : Bar where
  symbol := ⟨"600000", .aShare⟩
  timestamp := ⟨date, 0, 0⟩
  openPrice := 10
  high := 11
  low := 9
  close := 10
  volume := 100000

end FinDashboard.Backtest
