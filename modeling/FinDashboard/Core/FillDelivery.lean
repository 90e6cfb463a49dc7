import FinDashboard.Core.Booking

/-!
# Fills from delivery to position

The stages of a fill, as equations between the stored, the booked and the applied fills,
give the run theorem: when all events have been handled, every stored fill is booked to its
order, in the cache and in the row, and was applied to the position once.
-/

namespace FinDashboard.Core

open Async Broker Persistence Risk List

variable {account : AccountId} {config : RiskConfig}

/-- The consumer is about to book `unbooked` and to apply `unapplied`. -/
structure BookingStage (unbooked unapplied : List Fill) (s : Store) : Prop where
  tally : Tally s
  fills : s.fills = s.bookedFills ++ unbooked
  booked : s.bookedFills = s.appliedFills ++ unapplied
  distinct : (s.fills.map (·.fillId)).Nodup
  cached : ∀ fill ∈ unbooked ++ unapplied, (s.inflight fill.clientOrderId).isSome

/-- What the consumer relies on while it books fills. -/
structure BookingRely (s s' : Store) : Prop where
  frame : ConsumerRely s s'
  tally : Tally s → Tally s'
  rows : Tally s → ∀ clientOrderId, RowsBooked clientOrderId s → RowsBooked clientOrderId s'

variable {order : Order}

namespace RowsBooked

variable {clientOrderId : ClientOrderId}

/-- A write-back of a cached object cannot undo a booked row. -/
theorem ofPersist {s : Store} (h : RowsBooked clientOrderId s)
    (hfilled : order.filledQuantity = filledOf s.bookedFills order.clientOrderId) :
    RowsBooked clientOrderId (persist s order) := by
  intro row hmem hid
  obtain ⟨-, hold⟩ | ⟨hrow, old, -, -, hwrite⟩ := mem_persist hmem
  · exact h row hold hid
  · have hwritten : row.filledQuantity = order.filledQuantity := by rw [hwrite]; rfl
    rw [hwritten, hfilled, ← hrow, hid]
    rfl

theorem ofRoutine {s s' : Store} (hroutine : Routine s s') (htally : Tally s)
    (h : RowsBooked clientOrderId s) : RowsBooked clientOrderId s' := by
  induction hroutine with
  | other _ horders _ hbooked =>
    unfold RowsBooked
    rw [horders, hbooked]
    exact h
  | load => exact h
  | mutate => exact h
  | persist hcached _ =>
    refine h.ofPersist ?_
    rw [htally.keyed.id _ _ hcached]
    exact htally.cached _ _ hcached
  | trans hfirst _ ih ih' => exact ih' (Tally.ofRoutine hfirst htally) (ih htally h)

theorem ofStep {point : Point} {reply : Reply} {s s' : Store} (hlegal : brokerLegal point reply s)
    (hok : fillAdmitted point reply s) (hpoint : point.ofCall) (hstep : Step account config point s s')
    (htally : Tally s) (h : RowsBooked clientOrderId s) : RowsBooked clientOrderId s' := by
  unfold Step at hstep
  split at hstep
  · obtain rfl | ⟨⟨request, id, level, rfl, -⟩, -, rfl⟩ := hstep
    · exact h
    · intro row hmem hid
      rcases mem_append.mp hmem with hold | hnew
      · exact h row hold hid
      · obtain rfl := mem_singleton.mp hnew
        have hnone := filledOf_eq_zero fun fill hfill => hlegal fill (htally.booked fill hfill)
        change 0 = filledOf s.bookedFills clientOrderId
        rw [← hid]
        exact hnone.symm
  · obtain ⟨-, -, rfl⟩ := hstep
    exact h
  · obtain rfl | ⟨-, -, rfl⟩ := hstep
    · exact h
    · intro row hmem hid
      obtain ⟨-, hold⟩ | ⟨-, old, hold, holdid, hwrite⟩ := mem_persist hmem
      · exact h row hold hid
      · have hsame : row.filledQuantity = old.filledQuantity := by
          rw [hwrite, hok old hold holdid]
          rfl
        have hrow : row.clientOrderId = old.clientOrderId := by rw [hwrite]; rfl
        rw [hsame]
        exact h old hold (hrow.symm.trans hid)
  · exact hpoint.elim
  · exact hpoint.elim
  · exact hpoint.elim
  · exact ofRoutine hstep htally h

end RowsBooked

namespace BookingRely

theorem refl (s : Store) : BookingRely s s := ⟨.refl s, id, fun _ _ h => h⟩

theorem trans {s t u : Store} (h : BookingRely s t) (h' : BookingRely t u) : BookingRely s u where
  frame := h.frame.trans h'.frame
  tally htally := h'.tally (h.tally htally)
  rows htally id hrows := h'.rows (h.tally htally) id (h.rows htally id hrows)

theorem ofStep {point : Point} {reply : Reply} {s s' : Store}
    (hlegal : brokerLegal point reply s) (hok : fillAdmitted point reply s)
    (hpoint : point.ofCall) (hstep : Step account config point s s') : BookingRely s s' where
  frame := .ofStep hpoint hstep
  tally := Tally.ofStep hlegal hok hpoint hstep
  rows htally _ hrows := hrows.ofStep hlegal hok hpoint hstep htally

end BookingRely

namespace BookingStage

variable {unbooked unapplied : List Fill} {s s' : Store}

theorem rely (hrely : BookingRely s s') (h : BookingStage unbooked unapplied s) :
    BookingStage unbooked unapplied s' where
  tally := hrely.tally h.tally
  fills := by rw [hrely.frame.fills, hrely.frame.bookedFills]; exact h.fills
  booked := by rw [hrely.frame.bookedFills, hrely.frame.appliedFills]; exact h.booked
  distinct := by rw [hrely.frame.fills]; exact h.distinct
  cached fill hfill := hrely.frame.cached _ (h.cached fill hfill)

theorem ofRoutine (h : BookingStage unbooked unapplied s) (hroutine : Routine s s') :
    BookingStage unbooked unapplied s' :=
  h.rely ⟨.ofRoutine hroutine, Tally.ofRoutine hroutine, fun htally _ =>
    RowsBooked.ofRoutine hroutine htally⟩

variable {fill : Fill}

theorem store (h : BookingStage [] [] s) (hfresh : getFill s fill.fillId = none)
    (hcached : (s.inflight fill.clientOrderId).isSome) :
    BookingStage [fill] [] { s with fills := s.fills ++ [fill] } where
  tally :=
    { keyed := h.tally.keyed.of_inflight_eq rfl (.of_orders_eq rfl)
      cached := h.tally.cached
      row := h.tally.row
      booked := fun f hf => mem_append_left _ (h.tally.booked f hf) }
  fills := by
    have hfills := h.fills
    rw [append_nil] at hfills
    rw [hfills]
  booked := h.booked
  distinct := by
    have hnew : ∀ f ∈ s.fills, f.fillId ≠ fill.fillId := by
      simpa [getFill] using hfresh
    rw [map_append, nodup_append]
    refine ⟨h.distinct, by simp, ?_⟩
    intro id hid other hother
    obtain ⟨f, hf, rfl⟩ := mem_map.mp hid
    obtain rfl := mem_singleton.mp hother
    exact hnew f hf
  cached := by simpa using hcached

/-- An admitted fill reaches the cached object; the row lags behind. -/
theorem book (h : BookingStage [fill] [] s)
    (hcached : s.inflight fill.clientOrderId = some order) :
    BookingStage [] [fill] { s.cache fill.clientOrderId (executed fill order) with
      bookedFills := s.bookedFills ++ [fill] } where
  tally :=
    { keyed := by
        have hid := h.tally.keyed.id _ _ hcached
        have hrow := h.tally.keyed.row _ (by rw [hcached]; rfl)
        have hcache : CacheKeyed (s.cache fill.clientOrderId (executed fill order)) :=
          h.tally.keyed.ofCache hid hrow
        exact hcache.of_inflight_eq rfl (.of_orders_eq rfl)
      cached := by
        intro id other hother
        change other.filledQuantity = filledOf (s.bookedFills ++ [fill]) id
        rw [filledOf_append]
        by_cases heq : id = fill.clientOrderId
        · subst heq
          simp only [inflight_cache, Function.update_self, Option.some.injEq] at hother
          have hold := h.tally.cached _ _ hcached
          rw [← hother, if_pos rfl, ← hold]
          rfl
        · have hold := h.tally.cached id other (by simpa [heq] using hother)
          rw [if_neg (Ne.symm heq), hold, add_zero]
      row := by
        intro row hmem
        have hlast : s.bookedFills = s.appliedFills := by simpa using h.booked
        have hfilled : row.filledQuantity = filledOf s.bookedFills row.clientOrderId := by
          obtain hrow | ⟨-, hrow⟩ := h.tally.row row hmem
          · exact hrow
          · rw [hrow, hlast]
        by_cases heq : row.clientOrderId = fill.clientOrderId
        · right
          refine ⟨?_, ?_⟩
          · rw [heq]
            simp
          · rw [hfilled, hlast]
            rfl
        · left
          change row.filledQuantity = filledOf (s.bookedFills ++ [fill]) row.clientOrderId
          rw [filledOf_append, if_neg (Ne.symm heq), hfilled, add_zero]
      booked := by
        intro f hf
        change f ∈ s.fills
        rw [h.fills]
        exact hf }
  fills := by
    change s.fills = (s.bookedFills ++ [fill]) ++ []
    rw [h.fills, append_nil]
  booked := by
    have hlast : s.bookedFills = s.appliedFills := by simpa using h.booked
    change s.bookedFills ++ [fill] = s.appliedFills ++ [fill]
    rw [hlast]
  distinct := h.distinct
  cached := by simp

theorem write (h : BookingStage [] [fill] s) (hcached : s.inflight fill.clientOrderId = some order) :
    BookingStage [] [fill] (persist s order) ∧ RowsBooked fill.clientOrderId (persist s order) := by
  have hid := h.tally.keyed.id _ _ hcached
  have hfilled : order.filledQuantity = filledOf s.bookedFills order.clientOrderId := by
    rw [hid]
    exact h.tally.cached _ _ hcached
  refine ⟨⟨h.tally.ofPersist hfilled, h.fills, h.booked, h.distinct, h.cached⟩, ?_⟩
  intro row hmem hrow
  obtain ⟨hne, -⟩ | ⟨-, old, -, -, hwrite⟩ := mem_persist hmem
  · exact absurd (hrow.trans hid.symm) hne
  · have hwritten : row.filledQuantity = order.filledQuantity := by rw [hwrite]; rfl
    rw [hwritten, hfilled, hid]
    rfl

/-- With the position updated, nothing is outstanding. -/
theorem apply (position : Position) (h : BookingStage [] [fill] s)
    (hrows : RowsBooked fill.clientOrderId s) : BookingStage [] []
      { upsertLocal position s with appliedFills := s.appliedFills ++ [fill] } where
  tally :=
    { keyed := h.tally.keyed.of_inflight_eq (inflight_upsertLocal position s)
        (.of_orders_eq (orders_upsertLocal position s))
      cached := by
        intro id order horder
        rw [inflight_upsertLocal] at horder
        rw [bookedFills_upsertLocal]
        exact h.tally.cached id order horder
      row := by
        intro row hmem
        rw [orders_upsertLocal] at hmem
        rw [bookedFills_upsertLocal]
        left
        by_cases heq : row.clientOrderId = fill.clientOrderId
        · rw [hrows row hmem heq, heq]
        · obtain hrow | ⟨-, hrow⟩ := h.tally.row row hmem
          · exact hrow
          · rw [hrow, h.booked, filledOf_append, if_neg (Ne.symm heq), add_zero]
      booked := by
        intro f hf
        rw [bookedFills_upsertLocal] at hf
        rw [fills_upsertLocal]
        exact h.tally.booked f hf }
  fills := by
    rw [fills_upsertLocal, bookedFills_upsertLocal]
    exact h.fills
  booked := by
    rw [bookedFills_upsertLocal, h.booked, append_nil]
  distinct := by
    rw [fills_upsertLocal]
    exact h.distinct
  cached := by simp

/-- Between events, the agreement of the three places. -/
theorem fillsBooked (h : BookingStage [] [] s) : FillsBooked s := by
  have hfills : s.fills = s.bookedFills := by simpa using h.fills
  have hlast : s.bookedFills = s.appliedFills := by simpa using h.booked
  refine ⟨?_, ?_, ?_, h.distinct⟩
  · rw [hfills]
    exact h.tally.cached
  · intro row hmem
    rw [hfills]
    obtain hrow | ⟨-, hrow⟩ := h.tally.row row hmem
    · exact hrow
    · rw [hrow, hlast]
  · rw [hfills, hlast]

end BookingStage

/-- The runs in which every fill is booked. -/
def bookingCondition : PointCondition := fun point reply s =>
  brokerLegal point reply s ∧ fillAdmitted point reply s

instance : ∀ point reply s, Decidable (fillAdmitted point reply s) := by
  intro point reply s
  apply Point.casesOn (motive := fun point => Decidable (fillAdmitted point reply s)) point <;>
    intros <;> (unfold fillAdmitted; infer_instance)

instance (point : Point) (reply : Reply) (s : Store) : Decidable (bookingCondition point reply s) :=
  inferInstanceAs (Decidable (_ ∧ _))

instance (Ok : PointCondition) [∀ point reply s, Decidable (Ok point reply s)] (p : TaskPool)
    (schedule : List (ℕ × Reply)) : Decidable (p.Admits Ok schedule) :=
  inferInstanceAs (Decidable (∀ t ∈ p.turns schedule, Ok t.label t.reply t.before))

def bookingProtocol (account : AccountId) :
    FillProtocol account bookingCondition BookingRely where
  Idle := BookingStage [] []
  Stored fill := BookingStage [fill] []
  Booked fill := BookingStage [] [fill]
  Persisted fill s := BookingStage [] [fill] s ∧ RowsBooked fill.clientOrderId s
  rely h := h.frame
  rely_refl := .refl
  rely_idle := BookingStage.rely
  rely_stored := BookingStage.rely
  rely_booked := BookingStage.rely
  rely_persisted h hs := ⟨hs.1.rely h, h.rows hs.1.tally _ hs.2⟩
  routine := BookingStage.ofRoutine
  store _ hs hfresh hcached := hs.store hfresh hcached
  stored_cached hs := hs.cached _ (by simp)
  book _ hs hcached _ := hs.book hcached
  refuse hok _ hcached hrefused := by
    have hadmitted := hok.2 _ hcached
    rw [hrefused] at hadmitted
    cases hadmitted
  booked_row := by
    intro s fill hs
    obtain ⟨order, hcached⟩ := Option.isSome_iff_exists.mp (hs.cached fill (by simp))
    refine ⟨order, hcached, ?_⟩
    rw [hs.tally.keyed.id _ _ hcached]
    exact hs.tally.keyed.row _ (by rw [hcached]; rfl)
  write hs hcached := hs.write hcached
  apply hs := hs.1.apply _ hs.2

/-- The broker's reports name the order their fill belongs to. -/
def ReportsOwnFills (events : List BrokerEvent) : Prop :=
  ∀ event ∈ events, ∀ fill, event.fill = some fill →
    event.clientOrderId = some fill.clientOrderId

/-- A store in which nothing is outstanding. -/
structure Settled (s : Store) : Prop where
  keyed : CacheKeyed s
  fillsBooked : FillsBooked s
  bookedFills : s.bookedFills = s.fills

theorem Settled.bookingStage {s : Store} (h : Settled s) : BookingStage [] [] s where
  tally :=
    { keyed := h.keyed
      cached := by rw [h.bookedFills]; exact h.fillsBooked.cached
      row := fun row hmem => .inl (by rw [h.bookedFills]; exact h.fillsBooked.row row hmem)
      booked := fun fill hfill => by rwa [← h.bookedFills] }
  fills := by rw [h.bookedFills, append_nil]
  booked := by rw [h.bookedFills, h.fillsBooked.applied, append_nil]
  distinct := h.fillsBooked.distinct
  cached := by simp

/-- No fill is lost or half-applied in a run that meets the booking condition: once the event
consumer has handled its last event, whatever the concurrent calls are doing, the cached
object and the row of every order carry exactly its stored fills, and each stored fill was
applied to the position once. -/
theorem fillsBooked_of_bookingCondition {events : List BrokerEvent} {calls : List Call} {s : Store}
    (hs : Settled s) (hevents : ReportsOwnFills events) {schedule : List (ℕ × Reply)}
    (hok : (orderManager account config events calls s).Admits bookingCondition schedule)
    (hdone : ((orderManager account config events calls s).exec schedule).result? 0 = some (.ok ())) :
    FillsBooked ((orderManager account config events calls s).exec schedule).shared := by
  let P := bookingProtocol account
  have hconsumer : P.IdleSafe config (consumeBrokerEvents account events) s :=
    P.consumeBrokerEvents_safe hs.bookingStage hevents
  have hidle : BookingStage [] [] _ := (orderManager_safe bookingCondition {
      rely := BookingRely
      guar := fun point _ s s' => P.Turn config point s s'
      post := fun _ s => P.Idle s
      rely_refl := .refl
      rely_trans := fun _ _ _ => .trans }
    (fun _ _ _ _ hcond hpoint hstep => .ofStep hcond.1 hcond.2 hpoint hstep)
    (fun _ _ _ _ hturn => hturn.2.1.rowsPersist) hconsumer hok).1.result hdone
  exact hidle.fillsBooked

theorem settled_empty : Settled { ready := true } where
  keyed := ⟨by simp, by simp⟩
  fillsBooked := ⟨by simp, by simp, rfl, nodup_nil⟩
  bookedFills := rfl

section Examples

def buyRequest : OrderRequest := ⟨"acc", ⟨"510300.SH", .aShare⟩, .buy, .limit, 100, some 2⟩

/-- An execution of that order. -/
def buyFill (fillId : String) (quantity : ℚ) : Fill :=
  ⟨fillId, "o1", ⟨"510300.SH", .aShare⟩, .buy, quantity, 2, 0⟩

def acceptedEvent : BrokerEvent :=
  { type := .orderAccepted, clientOrderId := some "o1", brokerOrderId := some "B1" }

def filledEvent (fill : Fill) : BrokerEvent :=
  { type := .orderFilled, clientOrderId := some fill.clientOrderId, fill := some fill }

/-- The same task resumed several times in a row. -/
def turnsOf (n count : ℕ) (reply : Reply) : List (ℕ × Reply) := replicate count (n, reply)

/-- An order that is filled in two parts while its fills are delivered twice. -/
def partialFills : TaskPool :=
  orderManager "acc" {} [acceptedEvent, filledEvent (buyFill "f1" 40), filledEvent (buyFill "f1" 40),
    filledEvent (buyFill "f2" 60)] [.place buyRequest "o1"] { ready := true }

def partialFillsSchedule : List (ℕ × Reply) :=
  turnsOf 1 9 { submission := .returned { brokerOrderId := some "B1" } } ++ turnsOf 0 20 {}

theorem partialFills_booked : FillsBooked (partialFills.exec partialFillsSchedule).shared :=
  fillsBooked_of_bookingCondition settled_empty
    (by
      intro event hevent fill hfill
      simp only [acceptedEvent, filledEvent, mem_cons, not_mem_nil, or_false] at hevent
      obtain rfl | rfl | rfl | rfl := hevent
      · cases hfill
      · exact congrArg (·.map (·.clientOrderId)) hfill
      · exact congrArg (·.map (·.clientOrderId)) hfill
      · exact congrArg (·.map (·.clientOrderId)) hfill)
    (by decide +kernel) (by decide +kernel)

/-- A resting order is cancelled; its fill arrives before the cancel takes effect. -/
def cancelRace : TaskPool :=
  orderManager "acc" {} [acceptedEvent, filledEvent (buyFill "f1" 100)]
    [.place buyRequest "o1", .cancel "o1"] { ready := true }

def cancelRaceSchedule : List (ℕ × Reply) :=
  turnsOf 1 9 { submission := .returned { brokerOrderId := some "B1" } } ++ turnsOf 0 1 {} ++
    turnsOf 2 3 {} ++ turnsOf 0 4 {}

/-- The fill that arrives in `CANCEL_PENDING` is stored and added to the cached object, but it
reaches neither the row nor the position. -/
theorem cancelRace_loses_fill :
    Settled cancelRace.shared ∧ cancelRace.Admits brokerLegal cancelRaceSchedule ∧
      (∀ task ∈ (cancelRace.exec cancelRaceSchedule).tasks, task.result?.isSome) ∧
      (cancelRace.exec cancelRaceSchedule).shared.fills = [buyFill "f1" 100] ∧
      (cancelRace.exec cancelRaceSchedule).shared.appliedFills = [] ∧
      ((cancelRace.exec cancelRaceSchedule).shared.inflight "o1").map (·.filledQuantity) =
        some 100 ∧
      (cancelRace.exec cancelRaceSchedule).shared.orders.map (·.filledQuantity) = [0] ∧
      ¬FillsBooked (cancelRace.exec cancelRaceSchedule).shared := by
  have happlied : (cancelRace.exec cancelRaceSchedule).shared.appliedFills = [] := by
    decide +kernel
  have hfills : (cancelRace.exec cancelRaceSchedule).shared.fills = [buyFill "f1" 100] := by
    decide +kernel
  refine ⟨settled_empty, by decide +kernel, by decide +kernel, hfills, happlied,
    by decide +kernel, by decide +kernel, fun h => ?_⟩
  have hboth := h.applied
  rw [happlied, hfills] at hboth
  cases hboth

end Examples

end FinDashboard.Core
