import FinDashboard.Backtest.BrokerRuns

/-!
# Fills on later bars

With `next_bar_only` a pending order is passed over on the day it was submitted. The day it was
submitted on is the current date of the run at that call, so in a chronological run every fill
comes on a bar of a strictly later day.
-/

namespace FinDashboard.Backtest

open List

open Simulation (Bar Date)

variable {config : BrokerConfig} {actions : List Action} {action : Action} {today day : Date}
  {st : State} {state : OrderState} {order : Order} {bar : Bar} {fill : Fill}

/-- Under these ids an order for the symbol was submitted on the day. -/
def SubmittedOn (config : BrokerConfig) (actions : List Action) (clientOrderId : ClientOrderId)
    (brokerOrderId : Option String) (symbol : Symbol) (day : Date) : Prop :=
  ∃ earlier later side quantity orderType price,
    actions = earlier ++ .submitOrder clientOrderId symbol side quantity orderType price :: later ∧
      (run config earlier).currentDate = some day ∧
      brokerOrderId = some (toString (run config earlier).idCounter)

section Submissions

variable {clientOrderId : ClientOrderId} {brokerOrderId : Option String} {symbol : Symbol}

theorem SubmittedOn.append
    (h : SubmittedOn config actions clientOrderId brokerOrderId symbol day) (action : Action) :
    SubmittedOn config (actions ++ [action]) clientOrderId brokerOrderId symbol day := by
  obtain ⟨earlier, later, side, quantity, orderType, price, rfl, hdate, hid⟩ := h
  refine ⟨earlier, later ++ [action], side, quantity, orderType, price, ?_, hdate, hid⟩
  simp

theorem SubmittedOn.le_date (h : SubmittedOn config actions clientOrderId brokerOrderId symbol day)
    (hchronological : Chronological (actions ++ [.onNewBar bar])) : day ≤ bar.timestamp.date := by
  obtain ⟨earlier, later, side, quantity, orderType, price, rfl, hdate, hid⟩ := h
  unfold Chronological at hchronological
  rw [filterMap_append] at hchronological
  apply (pairwise_append.mp hchronological).2.2 day _ bar.timestamp.date mem_cons_self
  rw [filterMap_append]
  exact mem_append_left _ (currentDate_mem hdate)

end Submissions

/-- A pending order with the day of its submission. -/
def Submitted (config : BrokerConfig) (actions : List Action) (order : Order) (state : OrderState) :
    Prop :=
  Pended config order state ∧
    SubmittedOn config actions order.clientOrderId order.brokerOrderId order.symbol state.submittedOn

theorem Tried.submitted {result : State × OrderState} {order' : Order}
    (h : Tried today st state order result) (hlisted : st.orders[state.order]? = some order)
    (hsubmitted : Submitted config actions order state)
    (horder' : result.1.orders[state.order]? = some order')
    (hopen : order'.status.isTerminal = false) : Submitted config actions order' result.2 := by
  refine ⟨h.pended hlisted hsubmitted.1 horder' hopen, ?_⟩
  obtain ⟨found, hfound, hclient, hsymbol, hbroker, -⟩ := h.orders_eq hlisted
  obtain rfl := Option.some.inj (hfound.symm.trans horder')
  have hday : result.2.submittedOn = state.submittedOn := by
    cases h <;> rfl
  rw [hclient, hbroker, hsymbol, hday]
  exact hsubmitted.2

/-- A fill on the bar of an order that was submitted earlier. -/
def FilledLater (config : BrokerConfig) (actions : List Action) (bar : Bar) (fill : Fill) : Prop :=
  fill.symbol.code = bar.symbol.code ∧ fill.filledAt.date = bar.timestamp.date ∧
    ∃ day < bar.timestamp.date,
      SubmittedOn config actions fill.clientOrderId fill.brokerOrderId fill.symbol day

/-- What the bar has filled so far. -/
def FillsLater (config : BrokerConfig) (actions : List Action) (bar : Bar) (before st : State) : Prop :=
  ∃ new, st.fills = before.fills ++ new ∧ ∀ fill ∈ new, FilledLater config actions bar fill

theorem of_not_passedOver (hnext : config.matchingModel.nextBarOnly = true)
    (h : passedOver config today state order bar = false) :
    order.symbol.code = bar.symbol.code ∧ state.submittedOn ≠ today := by
  unfold passedOver at h
  rw [hnext] at h
  simpa using h

theorem Tried.filledLater {before : State} {result : State × OrderState}
    (hnext : config.matchingModel.nextBarOnly = true)
    (hchronological : Chronological (actions ++ [.onNewBar bar]))
    (hbefore : FillsLater config actions bar before st)
    (hsubmitted : Submitted config actions order state)
    (hpass : passedOver config bar.timestamp.date state order bar = false)
    (h : Tried bar.timestamp.date st state order result) :
    FillsLater config actions bar before result.1 := by
  obtain ⟨hcode, hday⟩ := of_not_passedOver hnext hpass
  have hlater := lt_of_le_of_ne (hsubmitted.2.le_date hchronological) hday
  obtain ⟨new, hfills, hnew⟩ := hbefore
  cases h with
  | waits => exact ⟨new, hfills, hnew⟩
  | rejects => exact ⟨new, hfills, hnew⟩
  | trades hbooks e =>
    refine ⟨new ++ [fillOf order e st.idCounter bar.timestamp.date], ?_, ?_⟩
    · rw [← append_assoc, ← hfills]
      rfl
    · intro fill hfill
      obtain hold | hfilled := mem_append.mp hfill
      · exact hnew fill hold
      · rw [mem_singleton.mp hfilled]
        exact ⟨hcode, rfl, state.submittedOn, hlater, hsubmitted.2⟩

theorem turnRule_later (hnext : config.matchingModel.nextBarOnly = true)
    (hchronological : Chronological (actions ++ [.onNewBar bar])) (before : State) :
    TurnRule config bar.timestamp.date bar (FillsLater config actions bar before)
      (Submitted config actions) (Submitted config actions) := by
  refine ⟨fun _ _ h => h, ?_⟩
  intro st state order result hP hsubmitted hlisted hpass htried
  exact ⟨htried.filledLater hnext hchronological hP hsubmitted hpass,
    fun order' horder' hopen => htried.submitted hlisted hsubmitted horder' hopen⟩

theorem run_submitted (config : BrokerConfig) (actions : List Action) :
    Waiting (Submitted config actions) (run config actions) := by
  induction actions using reverseRecOn with
  | nil =>
    constructor
    · intro entry hentry
      cases hentry
    · exact nodup_nil
  | append_singleton actions action ih =>
    have hgrown : Waiting (Submitted config (actions ++ [action])) (run config actions) :=
      ih.imp fun order state h => ⟨h.1, h.2.append action⟩
    rw [run_append]
    cases action with
    | onNewBar bar =>
      have hrule : TurnRule config bar.timestamp.date bar (fun _ => True)
          (Submitted config (actions ++ [.onNewBar bar]))
          (Submitted config (actions ++ [.onNewBar bar])) := by
        refine ⟨fun _ _ h => h, ?_⟩
        intro st state order result _ hsubmitted hlisted _ htried
        exact ⟨trivial, fun order' horder' hopen => htried.submitted hlisted hsubmitted horder' hopen⟩
      have hadvanced : Waiting (Submitted config (actions ++ [.onNewBar bar]))
          ((run config actions).advance bar) :=
        hgrown.of_sublist (List.Sublist.refl (run config actions).pending) fun _ _ => rfl
      exact (matchPendingOrders_rule hrule (fun _ _ _ h => h) trivial hadvanced).2
    | submitOrder clientOrderId symbol side quantity orderType price =>
      apply (placeOrder_placed config (run config actions) _).waiting hgrown
      intro state slippageBps accepted hplace hdate hrule
      refine ⟨⟨Or.inl rfl, slippageBps, hrule⟩, ?_⟩
      exact ⟨actions, [], side, quantity, orderType, price, rfl, hdate, rfl⟩
    | cancelOrder clientOrderId =>
      exact (cancelOrder_cancelled hgrown clientOrderId).waiting hgrown

/-- With `next_bar_only` only a bar fills, and it fills orders of its symbol that were submitted on
an earlier day. -/
theorem fills_on_later_bars (config : BrokerConfig) (hnext : config.matchingModel.nextBarOnly = true)
    (actions : List Action) (action : Action) (h : Chronological (actions ++ [action])) :
    ∃ new, (run config (actions ++ [action])).fills = (run config actions).fills ++ new ∧
      ∀ fill ∈ new, ∃ bar, action = .onNewBar bar ∧ FilledLater config actions bar fill := by
  have hwait := run_submitted config actions
  rw [run_append]
  cases action with
  | onNewBar bar =>
    have hadvanced : Waiting (Submitted config actions) ((run config actions).advance bar) :=
      hwait.of_sublist (List.Sublist.refl (run config actions).pending) fun _ _ => rfl
    have hnone : FillsLater config actions bar (run config actions)
        ((run config actions).advance bar) := by
      refine ⟨[], (append_nil _).symm, ?_⟩
      intro fill hfill
      cases hfill
    obtain ⟨⟨new, hfills, hnew⟩, -⟩ := matchPendingOrders_rule
      (turnRule_later hnext h (run config actions)) (fun _ _ _ hP => hP) hnone hadvanced
    exact ⟨new, hfills, fun fill hfill => ⟨bar, rfl, hnew fill hfill⟩⟩
  | submitOrder clientOrderId symbol side quantity orderType price =>
    refine ⟨[], ?_, by simp⟩
    rw [append_nil]
    exact (placeOrder_placed config _ _).ledger_eq.2.2
  | cancelOrder clientOrderId =>
    refine ⟨[], ?_, by simp⟩
    rw [append_nil]
    exact (cancelOrder_cancelled hwait clientOrderId).ledger_eq.2.2

/-- The bar of the second day fills an order of the first. -/
theorem fills_on_later_bars_second_day :
    (run { resolver := defaultResolver }
        ([.onNewBar (shareBar 1), .submitOrder "1" ⟨"600000", .aShare⟩ .buy 100 .market none] ++
          [.onNewBar (shareBar 2)])).fills.length = 1 ∧
      ∃ new, (run { resolver := defaultResolver }
          ([.onNewBar (shareBar 1), .submitOrder "1" ⟨"600000", .aShare⟩ .buy 100 .market none] ++
            [.onNewBar (shareBar 2)])).fills =
          (run { resolver := defaultResolver }
            [.onNewBar (shareBar 1),
              .submitOrder "1" ⟨"600000", .aShare⟩ .buy 100 .market none]).fills ++ new ∧
        ∀ fill ∈ new, ∃ bar, Action.onNewBar (shareBar 2) = .onNewBar bar ∧
          FilledLater { resolver := defaultResolver }
            [.onNewBar (shareBar 1), .submitOrder "1" ⟨"600000", .aShare⟩ .buy 100 .market none]
            bar fill :=
  ⟨by decide +kernel, fills_on_later_bars { resolver := defaultResolver } rfl _ _
    (by decide +kernel)⟩

end FinDashboard.Backtest
