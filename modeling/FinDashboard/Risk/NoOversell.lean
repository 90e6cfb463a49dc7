import FinDashboard.Risk.SellSteps

/-!
# Runs without overselling

The stages of a fill, for the coverage of resting sales, and the run theorem: the active
sales of a code never exceed its available quantity, as long as each sale is inserted on top
of what the resting sales may still take.
-/

namespace FinDashboard.Risk

open Async Broker Core Persistence Ledger List

variable {account : AccountId} {config : RiskConfig}

/-- What the consumer relies on while it takes fills to the position. -/
structure SellRely (account : AccountId) (s s' : Store) : Prop where
  frame : ConsumerRely s s'
  stage : ∀ unbooked unapplied, SellStage account unbooked unapplied s →
    SellStage account unbooked unapplied s' ∧
      ∀ clientOrderId, RowsCaughtUp clientOrderId s → RowsCaughtUp clientOrderId s'

namespace SellRely

theorem refl (s : Store) : SellRely account s s := ⟨.refl s, fun _ _ h => ⟨h, fun _ h => h⟩⟩

theorem trans {s t u : Store} (h : SellRely account s t) (h' : SellRely account t u) :
    SellRely account s u where
  frame := h.frame.trans h'.frame
  stage unbooked unapplied hstage := by
    obtain ⟨hmiddle, hrows⟩ := h.stage unbooked unapplied hstage
    obtain ⟨hlast, hrows'⟩ := h'.stage unbooked unapplied hmiddle
    exact ⟨hlast, fun clientOrderId hcaught =>
      hrows' clientOrderId (hrows clientOrderId hcaught)⟩

theorem ofStep {point : Point} {reply : Reply} {s s' : Store}
    (hok : sellCondition account point reply s) (hpoint : point.ofCall)
    (hstep : Step account config point s s') : SellRely account s s' where
  frame := .ofStep hpoint hstep
  stage _ _ h := ⟨h.ofStep hok hpoint hstep, fun _ hrows => h.caughtUp_ofStep hok hpoint hstep hrows⟩

end SellRely

def sellProtocol (account : AccountId) :
    FillProtocol account (sellCondition account) (SellRely account) where
  Idle := SellStage account [] []
  Stored fill := SellStage account [fill] []
  Booked fill := SellStage account [] [fill]
  Persisted fill s := SellStage account [] [fill] s ∧ RowsCaughtUp fill.clientOrderId s
  rely h := h.frame
  rely_refl := .refl
  rely_idle h hs := (h.stage _ _ hs).1
  rely_stored h hs := (h.stage _ _ hs).1
  rely_booked h hs := (h.stage _ _ hs).1
  rely_persisted h hs := ⟨(h.stage _ _ hs.1).1, (h.stage _ _ hs.1).2 _ hs.2⟩
  routine hs hroutine := hs.ofRoutine hroutine
  store hok hs _ hcached := hs.store hok hcached
  stored_cached hs := (hs.pending _ (mem_append_left _ mem_cons_self)).2.1
  book _ hs hcached hadmitted := hs.book hcached hadmitted
  refuse _ hs hcached _ := by
    have hid := (hs.cached _ _ hcached).1.complete
    have hpositive := (hs.pending _ (mem_append_left _ mem_cons_self)).1
    exact hs.cacheExecution hcached (by simp [canTransition]) fun hfilled =>
      (hid hfilled).trans (by linarith)
  booked_row hs := by
    have hcached := (hs.pending _ (mem_append_right _ mem_cons_self)).2.1
    obtain ⟨order, horder⟩ := Option.isSome_iff_exists.mp hcached
    refine ⟨order, horder, ?_⟩
    rw [hs.rows.keyed.id _ _ horder]
    exact hs.rows.keyed.row _ hcached
  write hs hcached := hs.write hcached
  apply hs := hs.1.apply hs.2

/-- Some stage of the coverage holds. -/
def SellCovered (account : AccountId) (s : Store) : Prop :=
  ∃ unbooked unapplied, SellStage account unbooked unapplied s

theorem sellCovered_of_stage {s : Store} (h : (sellProtocol account).Stage s) :
    SellCovered account s := by
  obtain hidle | ⟨fill, hstored | hbooked | hpersisted⟩ := h
  · exact ⟨_, _, hidle⟩
  · exact ⟨_, _, hstored⟩
  · exact ⟨_, _, hbooked⟩
  · exact ⟨_, _, hpersisted.1⟩

/-- In every state reached by any interleaving of concurrent orders, cancels and events in which
each sale is inserted on top of the commitment of its code, the active sales of every code are
covered by its available quantity, which is never negative. -/
theorem noOversell_of_sellCondition {events : List BrokerEvent} {calls : List Call} {s : Store}
    (hs : SellStage account [] [] s) (hevents : ReportsOwnFills events) {schedule : List (ℕ × Reply)}
    (hok : (orderManager account config events calls s).Admits (sellCondition account) schedule) :
    NoOversell account ((orderManager account config events calls s).exec schedule).shared ∧
      PositionsSound ((orderManager account config events calls s).exec schedule).shared := by
  let P := sellProtocol account
  have hconsumer : P.IdleSafe config (consumeBrokerEvents account events) s :=
    P.consumeBrokerEvents_safe hs hevents
  have hturns := (orderManager_safe (sellCondition account) {
      rely := SellRely account
      guar := fun point _ s s' => P.Turn config point s s'
      post := fun _ s => P.Idle s
      rely_refl := .refl
      rely_trans := fun _ _ _ => .trans }
    (fun _ _ _ _ hcond hpoint hstep => .ofStep hcond hpoint hstep)
    (fun _ _ _ _ hturn => hturn.2.1.rowsPersist) hconsumer hok).2
  have hcovered : SellCovered account
      ((orderManager account config events calls s).exec schedule).shared := by
    refine Pool.exec_preserves _ schedule (fun t ht => ?_) ⟨[], [], hs⟩
    rintro ⟨unbooked, unapplied, hbefore⟩
    have hguar := hturns t ht
    cases htask : t.task with
    | zero =>
      rw [htask] at hguar
      exact sellCovered_of_stage hguar.2.2
    | succ n =>
      rw [htask] at hguar
      exact ⟨unbooked, unapplied, (hguar.2.2.stage _ _ hbefore).1⟩
  obtain ⟨unbooked, unapplied, h⟩ := hcovered
  exact ⟨h.noOversell, h.positions⟩

/-- A store that holds a position and no orders. -/
theorem sellStage_of_position {position : Position}
    (h : 0 ≤ position.availableQuantity ∧ position.availableQuantity ≤ position.totalQuantity) :
    SellStage account [] [] { ready := true, positions := [position] } where
  rows := ⟨⟨by simp, by simp⟩, by simp, by simp⟩
  bookedFills := rfl
  stored := by simp
  capacity := by simp [filledOf]
  quantity := by simp
  terms := by simp
  cached := by simp
  row := by simp
  pending := by simp
  positions := by simpa [PositionsSound] using h
  covered code := by
    change (0 : ℚ) ≤ _
    unfold availableQuantity listLocal
    cases hfind : (([position].filter fun row => row.accountId = account).find?
        fun pos => pos.symbol.code = code) with
    | none => exact le_refl _
    | some pos =>
      have hmem := (mem_filter.mp (mem_of_find?_eq_some hfind)).1
      rw [mem_singleton.mp hmem]
      exact h.1

section Examples

def sellRequest : OrderRequest := ⟨"acc", ⟨"510300.SH", .aShare⟩, .sell, .limit, 60, some 2⟩

def heldPosition : Position :=
  { accountId := "acc"
    symbol := ⟨"510300.SH", .aShare⟩
    totalQuantity := 100
    availableQuantity := 100 }

def sellFill (fillId : String) (clientOrderId : ClientOrderId) (quantity : ℚ) : Fill :=
  ⟨fillId, clientOrderId, ⟨"510300.SH", .aShare⟩, .sell, quantity, 2, 0⟩

/-- One sale is placed and executed in two parts. -/
theorem partialSale_noOversell :
    NoOversell "acc" ((orderManager "acc" {} [acceptedEvent, filledEvent (sellFill "f1" "o1" 20),
        filledEvent (sellFill "f2" "o1" 40)] [.place sellRequest "o1"]
        { ready := true, positions := [heldPosition] }).exec partialFillsSchedule).shared ∧
      PositionsSound ((orderManager "acc" {} [acceptedEvent,
        filledEvent (sellFill "f1" "o1" 20), filledEvent (sellFill "f2" "o1" 40)]
        [.place sellRequest "o1"] { ready := true, positions := [heldPosition] }).exec
        partialFillsSchedule).shared :=
  noOversell_of_sellCondition (sellStage_of_position (by decide +kernel))
    (by
      intro event hevent fill hfill
      simp only [acceptedEvent, filledEvent, mem_cons, not_mem_nil, or_false] at hevent
      obtain rfl | rfl | rfl := hevent
      · cases hfill
      · exact congrArg (·.map (·.clientOrderId)) hfill
      · exact congrArg (·.map (·.clientOrderId)) hfill)
    (by decide +kernel)

def twoSales : TaskPool :=
  orderManager "acc" {} [] [.place sellRequest "o1", .place sellRequest "o2"]
    { ready := true, positions := [heldPosition] }

def twoSalesSchedule : List (ℕ × Reply) := turnsOf 1 9 {} ++ turnsOf 2 9 {}

/-- Each sale alone is covered by the 100 shares; together they sell 120. -/
theorem twoSales_oversell :
    SellStage "acc" [] [] twoSales.shared ∧ twoSales.Admits brokerLegal twoSalesSchedule ∧
      (∀ task ∈ (twoSales.exec twoSalesSchedule).tasks, task.result? = some (.ok ())) ∧
      total (remainingSell "acc" "510300.SH") (twoSales.exec twoSalesSchedule).shared.orders =
        120 ∧
      availableQuantity (twoSales.exec twoSalesSchedule).shared "acc" "510300.SH" = 100 ∧
      ¬NoOversell "acc" (twoSales.exec twoSalesSchedule).shared := by
  have hremaining : total (remainingSell "acc" "510300.SH")
      (twoSales.exec twoSalesSchedule).shared.orders = 120 := by decide +kernel
  have havailable :
      availableQuantity (twoSales.exec twoSalesSchedule).shared "acc" "510300.SH" = 100 := by
    decide +kernel
  refine ⟨sellStage_of_position (by decide +kernel), by decide +kernel, by decide +kernel,
    hremaining, havailable, fun h => ?_⟩
  have hcovered := h "510300.SH"
  rw [hremaining, havailable] at hcovered
  norm_num at hcovered

end Examples

end FinDashboard.Risk
