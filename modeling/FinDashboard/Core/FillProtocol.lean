import FinDashboard.Core.Interleaving

/-!
# The stages of a fill

The consumer takes a fill through four awaits: it is stored, booked to the cached order,
written to the order row and applied to the position. A `FillProtocol` gives a predicate for
each stage, stable under the steps of concurrent calls; from it follows what holds after
every turn of the consumer and when all events have been handled.
-/

namespace FinDashboard.Core

open Async Broker Persistence Risk

/-- What every consumer proof relies on: calls leave fills and positions alone and drop neither
rows nor cached orders. -/
structure ConsumerRely (s s' : Store) : Prop where
  rows : RowsPersist s s'
  cached : ∀ clientOrderId, (s.inflight clientOrderId).isSome → (s'.inflight clientOrderId).isSome
  fills : s'.fills = s.fills
  bookedFills : s'.bookedFills = s.bookedFills
  appliedFills : s'.appliedFills = s.appliedFills
  positions : s'.positions = s.positions

variable {s : Store}

namespace ConsumerRely

theorem refl (s : Store) : ConsumerRely s s := ⟨.refl s, fun _ h => h, rfl, rfl, rfl, rfl⟩

theorem trans {s t u : Store} (h : ConsumerRely s t) (h' : ConsumerRely t u) : ConsumerRely s u where
  rows := h.rows.trans h'.rows
  cached clientOrderId hcached := h'.cached clientOrderId (h.cached clientOrderId hcached)
  fills := h'.fills.trans h.fills
  bookedFills := h'.bookedFills.trans h.bookedFills
  appliedFills := h'.appliedFills.trans h.appliedFills
  positions := h'.positions.trans h.positions

theorem cached_cache {clientOrderId other : ClientOrderId} {order : Order}
    (h : (s.inflight other).isSome) : ((s.cache clientOrderId order).inflight other).isSome := by
  by_cases heq : other = clientOrderId
  · subst heq
    simp
  · simpa [heq] using h

theorem ofCache (s : Store) (clientOrderId : ClientOrderId) (order : Order) :
    ConsumerRely s (s.cache clientOrderId order) where
  rows := .of_orders_eq rfl
  cached _ h := cached_cache h
  fills := rfl
  bookedFills := rfl
  appliedFills := rfl
  positions := rfl

theorem ofRoutine {s s' : Store} (h : Routine s s') : ConsumerRely s s' := by
  induction h with
  | other hinflight horders hfills hbooked happlied hpositions =>
    exact ⟨.of_orders_eq horders, fun _ hcached => by rwa [hinflight], hfills, hbooked, happlied,
      hpositions⟩
  | load => exact .ofCache _ _ _
  | mutate => exact .ofCache _ _ _
  | persist => exact ⟨.ofPersist _ _, fun _ h => h, rfl, rfl, rfl, rfl⟩
  | trans _ _ ih ih' => exact ih.trans ih'

theorem ofStep {account : AccountId} {config : RiskConfig} {point : Point} {s s' : Store}
    (hpoint : point.ofCall) (h : Step account config point s s') : ConsumerRely s s' := by
  have hrows := h.rowsPersist
  unfold Step at h
  split at h
  · obtain rfl | ⟨-, -, rfl⟩ := h
    · exact .refl _
    · exact ⟨hrows, fun _ h => h, rfl, rfl, rfl, rfl⟩
  · obtain ⟨-, -, rfl⟩ := h
    exact .ofCache _ _ _
  · obtain rfl | ⟨-, -, rfl⟩ := h
    · exact .refl _
    · exact ⟨hrows, fun _ h => h, rfl, rfl, rfl, rfl⟩
  · exact hpoint.elim
  · exact hpoint.elim
  · exact hpoint.elim
  · exact .ofRoutine h

end ConsumerRely

/-- Predicates for the stages of a fill. -/
structure FillProtocol (account : AccountId) (Ok : PointCondition) (R : Store → Store → Prop) where
  Idle : Store → Prop
  Stored : Fill → Store → Prop
  Booked : Fill → Store → Prop
  Persisted : Fill → Store → Prop
  rely : ∀ {s s'}, R s s' → ConsumerRely s s'
  rely_refl : ∀ s, R s s
  rely_idle : ∀ {s s'}, R s s' → Idle s → Idle s'
  rely_stored : ∀ {s s' fill}, R s s' → Stored fill s → Stored fill s'
  rely_booked : ∀ {s s' fill}, R s s' → Booked fill s → Booked fill s'
  rely_persisted : ∀ {s s' fill}, R s s' → Persisted fill s → Persisted fill s'
  routine : ∀ {s s'}, Idle s → Routine s s' → Idle s'
  store : ∀ {s fill reply}, Ok (.addFill fill) reply s → Idle s → getFill s fill.fillId = none →
    (s.inflight fill.clientOrderId).isSome → Stored fill { s with fills := s.fills ++ [fill] }
  stored_cached : ∀ {s fill}, Stored fill s → (s.inflight fill.clientOrderId).isSome
  book : ∀ {s fill reply order}, Ok (.bookFill fill.clientOrderId fill) reply s → Stored fill s →
    s.inflight fill.clientOrderId = some order → admitsFill fill order = true →
    Booked fill { s.cache fill.clientOrderId (executed fill order) with
      bookedFills := s.bookedFills ++ [fill] }
  refuse : ∀ {s fill reply order}, Ok (.bookFill fill.clientOrderId fill) reply s →
    Stored fill s → s.inflight fill.clientOrderId = some order → admitsFill fill order = false →
    Idle (s.cache fill.clientOrderId (addExecution fill order))
  booked_row : ∀ {s fill}, Booked fill s → ∃ order,
    s.inflight fill.clientOrderId = some order ∧ (findOrder s order.clientOrderId).isSome
  write : ∀ {s fill order}, Booked fill s → s.inflight fill.clientOrderId = some order →
    Persisted fill (persist s order)
  apply : ∀ {s fill}, Persisted fill s → Idle
    { upsertLocal (positionAfter fill (loadOrCreate account fill.symbol (listLocal s account))) s with
      appliedFills := s.appliedFills ++ [fill] }

namespace FillProtocol

variable {account : AccountId} {config : RiskConfig} {Ok : PointCondition}
  {R : Store → Store → Prop} (P : FillProtocol account Ok R)

/-- The store is at one of the stages. -/
def Stage (s : Store) : Prop :=
  P.Idle s ∨ ∃ fill, P.Stored fill s ∨ P.Booked fill s ∨ P.Persisted fill s

/-- A turn of the consumer. -/
def Turn (config : RiskConfig) (point : Point) (s s' : Store) : Prop :=
  point.ofConsumer ∧ Step account config point s s' ∧ P.Stage s'

/-- The judgement of a task that runs between two fills. -/
abbrev IdleSafe (config : RiskConfig) (p : TradingTask Unit) (s : Store) : Prop :=
  Safe Ok R (fun point _ s s' => P.Turn config point s s') (fun _ s => P.Idle s) p s

theorem idle_of_performs {p : TradingTask Unit}
    (hp : Performs account config (fun point => point.isRoutine = true) p)
    (hs : P.Idle s) : P.IdleSafe config p s := by
  have hsafe : Safe Ok R (fun point _ t t' => point.isRoutine = true ∧
      Step account config point t t') (fun _ _ => True) p s :=
    Safe.mono (fun _ _ _ _ => trivial) (fun _ _ h => (P.rely h).rows) (fun _ _ _ _ _ h => h)
      (fun _ _ h => h) (hp s)
  have hinv := hsafe.invariant (I := P.Idle) (fun _ _ h => P.rely_idle h)
    (fun point _ t t' _ ht hstep => ?_) hs
  · refine Safe.mono (fun _ _ _ h => h) (fun _ _ h => h) ?_ (fun _ _ h => h.2) hinv
    rintro point _ t t' - ⟨⟨hpoint, hstep⟩, hidle⟩
    exact ⟨Point.ofConsumer_of_isRoutine hpoint, hstep, .inl hidle⟩
  · obtain ⟨hpoint, hstep⟩ := hstep
    refine P.routine ht ?_
    cases point <;> first | exact hstep | cases hpoint

theorem applyFill_safe {fill : Fill} (hs : P.Persisted fill s) :
    P.IdleSafe config (applyFill account fill) s := by
  refine Safe.atomically_bind fun t ht _ _ => ?_
  have htp := P.rely_persisted ht hs
  refine ⟨⟨trivial, .refl t, .inr ⟨fill, .inr (.inr htp)⟩⟩, ?_⟩
  refine Safe.atomically fun u (hu : R t u) _ _ => ?_
  have hup := P.rely_persisted hu htp
  have hlocal : listLocal t account = listLocal u account := by
    unfold listLocal
    rw [(P.rely hu).positions]
  have hidle := P.apply hup
  change P.Turn config _ u { upsertLocal (positionAfter fill (loadOrCreate account fill.symbol
    (listLocal t account))) u with appliedFills := u.appliedFills ++ [fill] } ∧ _
  rw [hlocal]
  exact ⟨⟨trivial, ⟨_, rfl⟩, .inl hidle⟩, fun v hv => P.rely_idle hv hidle⟩

theorem bookFill_safe {fill : Fill} (hs : P.Stored fill s) :
    P.IdleSafe config (do
      .atomically (.bookFill fill.clientOrderId fill) fun _ => bookFill fill.clientOrderId fill
      .atomically (.updateState fill.clientOrderId) fun _ => updateCached fill.clientOrderId
      applyFill account fill) s := by
  refine Safe.atomically_bind fun t ht _ hok => ?_
  have hts := P.rely_stored ht hs
  obtain ⟨order, hcached⟩ := Option.isSome_iff_exists.mp (P.stored_cached hts)
  rw [exec_bookFill fill hcached]
  by_cases hadmitted : admitsFill fill order = true
  · have hbooked := P.book hok hts hcached hadmitted
    simp only [hadmitted, if_true]
    refine ⟨⟨trivial, .inr ⟨order, hcached, .inl ⟨hadmitted, rfl⟩⟩, .inr ⟨fill, .inr (.inl hbooked)⟩⟩, ?_⟩
    refine Safe.atomically_bind fun u hu _ _ => ?_
    have hub := P.rely_booked hu hbooked
    obtain ⟨current, hcurrent, hrow⟩ := P.booked_row hub
    have hpersisted := P.write hub hcurrent
    rw [exec_updateCached hcurrent]
    simp only [Option.isNone_iff_eq_none, Option.isSome_iff_ne_none.mp hrow, if_false]
    exact ⟨⟨trivial, .persist hcurrent hrow, .inr ⟨fill, .inr (.inr hpersisted)⟩⟩,
      P.applyFill_safe hpersisted⟩
  · have hrefused : admitsFill fill order = false := by simpa using hadmitted
    have hidle := P.refuse hok hts hcached hrefused
    simp only [hrefused, if_false, Bool.false_eq_true]
    exact ⟨⟨trivial, .inr ⟨order, hcached, .inr ⟨hrefused, rfl⟩⟩, .inl hidle⟩,
      fun v hv => P.rely_idle hv hidle⟩

theorem cached_of_getOrderInflight {clientOrderId : ClientOrderId} {s t : Store} {order : Order}
    (h : (getOrderInflight clientOrderId).exec s = (.ok (some order), t)) :
    (t.inflight clientOrderId).isSome := by
  cases hcached : s.inflight clientOrderId with
  | some cached =>
    rw [exec_getOrderInflight hcached] at h
    obtain rfl := congrArg Prod.snd h
    simp [hcached]
  | none =>
    rw [exec_getOrderInflight_none hcached] at h
    cases hrow : getOrder s clientOrderId with
    | none => simp [hrow] at h
    | some row =>
      simp only [hrow] at h
      obtain rfl := congrArg Prod.snd h
      simp

/-- The handler of a fill, from the first await to the last. -/
theorem onFilled_safe {event : BrokerEvent} (hs : P.Idle s)
    (hevent : ∀ fill, event.fill = some fill → event.clientOrderId = some fill.clientOrderId) :
    P.IdleSafe config (onFilled account event) s := by
  have hstop : ∀ {t : Store}, P.Idle t → P.IdleSafe config (pure ()) t :=
    fun ht u hu => P.rely_idle hu ht
  unfold onFilled
  cases hfill : event.fill with
  | none => exact hstop hs
  | some fill =>
    rw [hevent fill hfill]
    refine Safe.atomically_bind fun t ht _ _ => ?_
    have hti := P.rely_idle ht hs
    refine ⟨⟨trivial, .refl t, .inl hti⟩, ?_⟩
    change P.IdleSafe config (if (getFill t fill.fillId).isSome then _ else _) t
    cases hknown : getFill t fill.fillId with
    | some row => exact hstop hti
    | none =>
      refine Safe.atomically_bind fun u hu _ _ => ?_
      have hroutine := IsRoutine.ofGetOrderInflight fill.clientOrderId u
      have hui := P.routine (P.rely_idle hu hti) hroutine
      refine ⟨⟨trivial, hroutine, .inl hui⟩, ?_⟩
      rcases hexec : (getOrderInflight fill.clientOrderId).exec u with ⟨_ | found, v⟩
      · rw [hexec] at hui
        exact fun w hw => P.rely_idle hw hui
      · rw [hexec] at hui hroutine
        cases found with
        | none => exact hstop hui
        | some order =>
          have hcached := cached_of_getOrderInflight hexec
          refine Safe.atomically_bind fun w hw _ hok => ?_
          have hfills : w.fills = t.fills := by
            rw [(P.rely hw).fills, (ConsumerRely.ofRoutine hroutine).fills, (P.rely hu).fills]
          have hfresh : getFill w fill.fillId = none := by
            unfold getFill at hknown ⊢
            rwa [hfills]
          have hstored := P.store hok (P.rely_idle hw hui) hfresh ((P.rely hw).cached _ hcached)
          rw [exec_addFill]
          simp only [hfresh, Option.isSome_none, Bool.false_eq_true, if_false]
          exact ⟨⟨trivial, .inr ⟨hfresh, rfl⟩, .inr ⟨fill, .inl hstored⟩⟩, P.bookFill_safe hstored⟩

theorem handleBrokerEvent_safe {event : BrokerEvent} (hs : P.Idle s)
    (hevent : ∀ fill, event.fill = some fill → event.clientOrderId = some fill.clientOrderId) :
    P.IdleSafe config (handleBrokerEvent account event) s := by
  unfold handleBrokerEvent
  cases event.type with
  | orderFilled => exact P.onFilled_safe hs hevent
  | orderAccepted => exact P.idle_of_performs (onAccepted_performs (fun _ h => h) event) hs
  | orderCancelled => exact P.idle_of_performs (onCancelled_performs (fun _ h => h) event) hs
  | orderRejected => exact P.idle_of_performs (onRejected_performs (fun _ h => h) event) hs
  | connected => exact fun u hu => P.rely_idle hu hs
  | disconnected => exact fun u hu => P.rely_idle hu hs
  | orderCancelRejected => exact fun u hu => P.rely_idle hu hs
  | error => exact fun u hu => P.rely_idle hu hs

theorem consumeBrokerEvents_safe {events : List BrokerEvent} (hs : P.Idle s)
    (hevents : ∀ event ∈ events, ∀ fill, event.fill = some fill →
      event.clientOrderId = some fill.clientOrderId) :
    P.IdleSafe config (consumeBrokerEvents account events) s := by
  induction events generalizing s with
  | nil => exact fun u hu => P.rely_idle hu hs
  | cons event rest ih =>
    have hrest : ∀ {t : Store}, P.Idle t →
        P.IdleSafe config (consumeBrokerEvents account rest) t := fun ht =>
      ih ht fun e he => hevents e (List.mem_cons_of_mem _ he)
    refine Safe.bind P.rely_refl (Safe.tryCatch P.rely_refl ?_)
    refine Safe.mono (fun _ _ _ h => h) (fun _ _ h => h) (fun _ _ _ _ _ h => h) ?_
      (P.handleBrokerEvent_safe hs (hevents event List.mem_cons_self))
    intro result t ht
    cases result with
    | ok a => exact fun u hu => hrest (P.rely_idle hu ht)
    | error e => exact fun u hu => hrest (P.rely_idle hu ht)

end FillProtocol

end FinDashboard.Core
