import FinDashboard.Backtest.BrokerRuns
import FinDashboard.Core.StateMachine

/-!
# The life of a paper order

The paper broker does not go through the order manager: it takes an order to `submitted` and to
`cancelled` without the statuses in between. Every other change of a status is a transition of the
order state machine, up to the rejection of an order that is already partially filled.
-/

namespace FinDashboard.Backtest

open Ledger List
open Core (canTransition)
open Simulation (Bar Date)

variable {config : BrokerConfig} {today : Date} {st st' : State} {state : OrderState}
  {order order' : Order} {bar : Bar} {source target : OrderStatus} {place : ℕ}

def State.statusOf (st : State) (place : ℕ) : OrderStatus :=
  ((st.orders[place]?).map Order.status).getD .created

/-- The changes of the broker that leave out the statuses of the order manager. -/
def BrokerShortcut (source target : OrderStatus) : Prop :=
  (source = .created ∧ target = .submitted) ∨
    ((source = .submitted ∨ source = .partiallyFilled) ∧ target = .cancelled)

/-- A status the broker may change to. -/
def MayBecome (source target : OrderStatus) : Prop :=
  canTransition source target = true ∨ BrokerShortcut source target ∨
    (source = .partiallyFilled ∧ target = .rejected)

theorem MayBecome.refl (status : OrderStatus) : MayBecome status status := by
  left
  simp [canTransition]

theorem mayBecome_of_open (hopen : source = .submitted ∨ source = .partiallyFilled)
    (htarget : target ∈ [.rejected, .partiallyFilled, .filled]) : MayBecome source target := by
  simp only [mem_cons, not_mem_nil, or_false] at htarget
  obtain rfl | rfl := hopen
  · left
    obtain rfl | rfl | rfl := htarget <;> decide
  · obtain rfl | rfl | rfl := htarget
    · exact Or.inr (Or.inr ⟨rfl, rfl⟩)
    · exact Or.inl (by decide)
    · exact Or.inl (by decide)

theorem MayBecome.eq_of_terminal (h : MayBecome source target) (hterminal : source.isTerminal = true) :
    target = source := by
  obtain htransition | hshortcut | hrejected := h
  · exact ((Core.canTransition_of_isTerminal hterminal).mp htransition).symm
  · obtain ⟨rfl, -⟩ | ⟨rfl | rfl, -⟩ := hshortcut <;> cases hterminal
  · rw [hrejected.1] at hterminal
    cases hterminal

/-- An order that is not open yet, or has just been submitted, has no filled quantity. -/
def Order.Unfilled (order : Order) : Prop :=
  order.status = .created ∨ order.status = .submitted → order.filledQuantity = 0

/-- What a step makes of an order of a status. -/
structure Changed (source : OrderStatus) (order : Order) : Prop where
  status : MayBecome source order.status
  rejected : order.status = .rejected →
    source = .rejected ∨ source = .partiallyFilled ∨ order.filledQuantity = 0
  unfilled : order.Unfilled

theorem Changed.refl (hunfilled : order.Unfilled) : Changed order.status order :=
  ⟨.refl _, Or.inl, hunfilled⟩

theorem changed_rejected (hopen : order.status = .submitted ∨ order.status = .partiallyFilled)
    (hunfilled : order.Unfilled) (reason : RejectReason) (message : List MessagePart) :
    Changed order.status (order.rejected reason message) := by
  constructor
  · exact mayBecome_of_open hopen mem_cons_self
  · intro _
    obtain hsubmitted | hpart := hopen
    · exact Or.inr (Or.inr (hunfilled (Or.inr hsubmitted)))
    · exact Or.inr (Or.inl hpart)
  · rintro (hstatus | hstatus) <;> cases hstatus

theorem changed_filled (hopen : order.status = .submitted ∨ order.status = .partiallyFilled)
    (remaining : ℚ) (e : Execution) : Changed order.status (order.filled remaining e) := by
  have hstatus : (order.filled remaining e).status = .filled ∨
      (order.filled remaining e).status = .partiallyFilled := by
    unfold Order.filled
    split_ifs
    · exact Or.inl rfl
    · exact Or.inr rfl
  constructor
  · apply mayBecome_of_open hopen
    obtain hfilled | hpart := hstatus
    · simp [hfilled]
    · simp [hpart]
  · intro hrejected
    rw [hrejected] at hstatus
    obtain hfilled | hpart := hstatus
    · cases hfilled
    · cases hpart
  · intro hnew
    obtain hfilled | hpart := hstatus
    · rw [hfilled] at hnew
      obtain hcreated | hsubmitted := hnew
      · cases hcreated
      · cases hsubmitted
    · rw [hpart] at hnew
      obtain hcreated | hsubmitted := hnew
      · cases hcreated
      · cases hsubmitted

theorem Tried.changed {result : State × OrderState} (h : Tried today st state order result)
    (hlisted : st.orders[state.order]? = some order)
    (hopen : order.status = .submitted ∨ order.status = .partiallyFilled) (hunfilled : order.Unfilled)
    (horder' : result.1.orders[state.order]? = some order') : Changed order.status order' := by
  obtain ⟨hlt, -⟩ := List.getElem?_eq_some_iff.mp hlisted
  cases h with
  | waits =>
    obtain rfl := Option.some.inj (hlisted.symm.trans horder')
    exact .refl hunfilled
  | rejects hbooks reason message =>
    have hset := (List.getElem?_set_self hlt).symm.trans horder'
    obtain rfl := Option.some.inj hset
    exact changed_rejected hopen hunfilled reason message
  | trades hbooks e =>
    have hset := (List.getElem?_set_self hlt).symm.trans horder'
    obtain rfl := Option.some.inj hset
    exact changed_filled hopen state.remaining e

/-- What a step makes of every order. -/
def Changes (st st' : State) : Prop :=
  ∀ (place : ℕ) (order : Order), st'.orders[place]? = some order →
    Changed (st.statusOf place) order

/-- No order has a filled quantity before its first fill. -/
def Unfilled (st : State) : Prop :=
  ∀ (place : ℕ) (order : Order), st.orders[place]? = some order → order.Unfilled

theorem statusOf_of_listed (h : st.orders[place]? = some order) : st.statusOf place = order.status := by
  unfold State.statusOf
  rw [h]
  rfl

theorem Unfilled.changes_of_orders_eq (hunfilled : Unfilled st) (h : st'.orders = st.orders) :
    Changes st st' := by
  intro place order hlisted
  rw [h] at hlisted
  rw [statusOf_of_listed hlisted]
  exact .refl (hunfilled place order hlisted)

theorem Placed.changes (h : Placed config st order st') (hunfilled : Unfilled st)
    (hcreated : order.status = .created) (hempty : order.filledQuantity = 0) : Changes st st' := by
  have hnew : ∀ new : Order, MayBecome .created new.status → new.filledQuantity = 0 →
      ∀ place order, (st.orders ++ [new])[place]? = some order →
        Changed (st.statusOf place) order := by
    intro new hstatus hzero place found hlisted
    by_cases hlt : place < st.orders.length
    · rw [List.getElem?_append_left hlt] at hlisted
      rw [statusOf_of_listed hlisted]
      exact .refl (hunfilled place found hlisted)
    · have hend := List.getElem?_eq_none (not_lt.mp hlt)
      rw [List.getElem?_append_right (not_lt.mp hlt)] at hlisted
      obtain rfl := mem_singleton.mp (mem_of_getElem? hlisted)
      unfold State.statusOf
      rw [hend]
      exact ⟨hstatus, fun _ => Or.inr (Or.inr hzero), fun _ => hzero⟩
  cases h with
  | refused order' ordersById events hstatus hfilled =>
    apply hnew order' _ (hfilled.trans hempty)
    obtain hrejected | hsame := hstatus
    · rw [hrejected]
      exact Or.inl (by decide)
    · rw [hsame, hcreated]
      exact .refl _
  | accepted state slippageBps quantity =>
    have hsubmitted : MayBecome .created (order.accepted quantity st.idCounter).status :=
      Or.inr (Or.inl (Or.inl ⟨rfl, rfl⟩))
    exact hnew _ hsubmitted hempty

theorem Cancelled.changes (h : Cancelled st st') (hunfilled : Unfilled st)
    (hwait : Waiting (Pended config) st) : Changes st st' := by
  cases h with
  | unknown => exact hunfilled.changes_of_orders_eq rfl
  | cancelled state order pendingOrders pendingLimit events hpending hlisted =>
    intro place found hfound
    by_cases hplace : state.order = place
    · obtain ⟨hlt, -⟩ := List.getElem?_eq_some_iff.mp hlisted
      obtain ⟨entry, hentry, hsame⟩ := List.mem_map.mp hpending
      obtain ⟨pending, hthere, hpended⟩ := hwait.listed entry hentry
      rw [hsame, hlisted] at hthere
      obtain rfl := Option.some.inj hthere
      rw [← hplace] at hfound ⊢
      rw [statusOf_of_listed hlisted]
      have hset := (List.getElem?_set_self hlt).symm.trans hfound
      obtain rfl := Option.some.inj hset
      constructor
      · exact Or.inr (Or.inl (Or.inr ⟨hpended.1, rfl⟩))
      · intro hrejected
        cases hrejected
      · rintro (hstatus | hstatus) <;> cases hstatus
    · have hkept := (List.getElem?_set_ne hplace).symm.trans hfound
      rw [statusOf_of_listed hkept]
      exact .refl (hunfilled place found hkept)

/-- An open order that a bar has not tried yet. -/
def Untried (config : BrokerConfig) (st : State) (order : Order) (state : OrderState) : Prop :=
  Pended config order state ∧ order.status = st.statusOf state.order ∧ order.Unfilled

theorem onNewBar_changes (hunfilled : Unfilled st) (hwait : Waiting (Pended config) st)
    (bar : Bar) : Changes st (onNewBar config st bar) := by
  have hrule : TurnRule config bar.timestamp.date bar (Changes st) (Untried config st)
      (Pended config) := by
    refine ⟨fun _ _ huntried => huntried.1, ?_⟩
    intro now state order result hnow huntried hlisted _ htried
    obtain ⟨hpended, hstatus, hempty⟩ := huntried
    constructor
    · intro place found hfound
      by_cases hplace : state.order = place
      · rw [← hplace] at hfound ⊢
        rw [← hstatus]
        exact htried.changed hlisted hpended.1 hempty hfound
      · rw [htried.orders_ne hplace] at hfound
        exact hnow place found hfound
    · exact fun order' horder' hopen => htried.pended hlisted hpended horder' hopen
  have huntried : Waiting (Untried config st) (st.advance bar) := by
    refine ⟨?_, hwait.distinct⟩
    intro entry hentry
    obtain ⟨order, hlisted, hpended⟩ := hwait.listed entry hentry
    exact ⟨order, hlisted, hpended, (statusOf_of_listed hlisted).symm, hunfilled _ _ hlisted⟩
  have hsame : Changes st (st.advance bar) := hunfilled.changes_of_orders_eq rfl
  exact (matchPendingOrders_rule hrule (fun _ _ _ h => h) hsame huntried).1

theorem step_changes (hunfilled : Unfilled st) (hwait : Waiting (Pended config) st)
    (action : Action) : Changes st (step config st action) := by
  cases action with
  | onNewBar bar => exact onNewBar_changes hunfilled hwait bar
  | submitOrder clientOrderId symbol side quantity orderType price =>
    exact (placeOrder_placed config st _).changes hunfilled rfl rfl
  | cancelOrder clientOrderId => exact (cancelOrder_cancelled hwait clientOrderId).changes hunfilled hwait

theorem step_length (hwait : Waiting (Pended config) st) (action : Action) :
    st.orders.length ≤ (step config st action).orders.length := by
  cases action with
  | onNewBar bar =>
    have hrule : TurnRule config bar.timestamp.date bar
        (fun now => True ∧ now.orders.length = st.orders.length) (Pended config) (Pended config) :=
      (turnRule_pended config _ bar).and fun _ _ _ _ htried hlength =>
        htried.length_eq.trans hlength
    have hadvanced : Waiting (Pended config) (st.advance bar) :=
      hwait.of_sublist (List.Sublist.refl st.pending) fun _ _ => rfl
    have hsame : True ∧ (st.advance bar).orders.length = st.orders.length := ⟨trivial, rfl⟩
    exact (matchPendingOrders_rule hrule (fun _ _ _ h => h) hsame hadvanced).1.2.ge
  | submitOrder clientOrderId symbol side quantity orderType price =>
    exact (placeOrder_placed config st _).length_le
  | cancelOrder clientOrderId => exact (cancelOrder_cancelled hwait clientOrderId).length_le

theorem run_unfilled (config : BrokerConfig) (actions : List Action) : Unfilled (run config actions) := by
  induction actions using reverseRecOn with
  | nil =>
    intro place order hlisted
    cases hlisted
  | append_singleton actions action ih =>
    rw [run_append]
    intro place order hlisted
    exact (step_changes ih (run_waiting config actions) action place order hlisted).unfilled

/-- In every run each change of a status is a transition of the state machine or a shortcut of the
broker, up to the rejection of a partially filled order; a terminal status is kept; and an order
that is rejected otherwise has no filled quantity. -/
theorem paper_order_lifecycle (config : BrokerConfig) (actions : List Action) (action : Action)
    (place : ℕ) : MayBecome ((run config actions).statusOf place)
        ((run config (actions ++ [action])).statusOf place) ∧
      (((run config actions).statusOf place).isTerminal = true →
        (run config (actions ++ [action])).statusOf place = (run config actions).statusOf place) ∧
      ∀ order, (run config (actions ++ [action])).orders[place]? = some order →
        order.status = .rejected → (run config actions).statusOf place = .rejected ∨
          (run config actions).statusOf place = .partiallyFilled ∨ order.filledQuantity = 0 := by
  have hwait := run_waiting config actions
  have hchanges := step_changes (run_unfilled config actions) hwait action
  have hlength := step_length hwait action
  rw [run_append]
  generalize step config (run config actions) action = next at hchanges hlength
  have hmay : MayBecome ((run config actions).statusOf place) (next.statusOf place) := by
    cases hlisted : next.orders[place]? with
    | some order =>
      rw [statusOf_of_listed hlisted]
      exact (hchanges place order hlisted).status
    | none =>
      have hbefore := List.getElem?_eq_none (hlength.trans (List.getElem?_eq_none_iff.mp hlisted))
      unfold State.statusOf
      rw [hlisted, hbefore]
      exact .refl _
  refine ⟨hmay, hmay.eq_of_terminal, ?_⟩
  intro order hlisted
  exact (hchanges place order hlisted).rejected

/-- An accepted order goes from created to submitted, which the state machine does not allow. -/
theorem paper_order_skips_statuses :
    ¬∀ (config : BrokerConfig) (actions : List Action) (action : Action) (place : ℕ),
      canTransition ((run config actions).statusOf place)
          ((run config (actions ++ [action])).statusOf place) = true ∧
        ∀ order, (run config (actions ++ [action])).orders[place]? = some order →
          0 < order.filledQuantity → order.status ≠ .rejected := by
  intro h
  have hcreated := (h { resolver := defaultResolver } [.onNewBar (shareBar 1)]
    (.submitOrder "1" ⟨"600000", .aShare⟩ .buy 100 .market none) 0).1
  revert hcreated
  decide +kernel

end FinDashboard.Backtest
