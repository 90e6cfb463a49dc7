import FinDashboard.Core.Submission

/-!
# The suspended call and the reporting consumer

The suspended call and the consumer are judged separately, each relying on what the other may
do. Whether the call returns normally is decided by which of the two moves the order out of
`SUBMITTING`.
-/

namespace FinDashboard.Core

open Async Broker Persistence

variable {account : AccountId} {clientOrderId : ClientOrderId} {s s' t u : Store} {order : Order}
  {target status : OrderStatus} {quantity booked : ℚ} {known : List Fill}

/-- An executed block of either task; the two blocks that may take the order out of
`SUBMITTING` do so. -/
structure Moves (clientOrderId : ClientOrderId) (point : Point) (s s' : Store) : Prop
    extends Forward clientOrderId s s' where
  leaves : (point = .brokerReply clientOrderId ∨
      ∃ brokerOrderId, point = .markAccepted clientOrderId brokerOrderId) →
    rank .submitted ≤ rankOf (s'.inflight clientOrderId)

/-- A block at another point only has to move forward. -/
theorem Moves.of_progress {point : Point} (h : Progress clientOrderId s s')
    (hbehind : RowBehind clientOrderId s) (hpoint : point ≠ .brokerReply clientOrderId ∧
      ∀ brokerOrderId, point ≠ .markAccepted clientOrderId brokerOrderId) :
    Moves clientOrderId point s s' := by
  refine ⟨⟨h.cached, (h.stored hbehind).2⟩, fun hleaves => ?_⟩
  obtain hreply | ⟨brokerOrderId, haccepted⟩ := hleaves
  · exact absurd hreply hpoint.1
  · exact absurd haccepted (hpoint.2 brokerOrderId)

section Reply

variable {submission : SubmissionResult}

/-- A turn of the suspended call. -/
structure ReplyTurn (target : OrderStatus) (clientOrderId : ClientOrderId) (point : Point)
    (s s' : Store) : Prop where
  step : ReplyStep target clientOrderId s s'
  moves : Moves clientOrderId point s s'

/-- The call has its reply and waits to write the order back. -/
structure Replied (target : OrderStatus) (clientOrderId : ClientOrderId) (s : Store) : Prop where
  object : ∃ order, s.inflight clientOrderId = some order ∧ order.clientOrderId = clientOrderId
  reached : rank target ≤ rankOf (s.inflight clientOrderId)
  row : (findOrder s clientOrderId).isSome
  behind : RowBehind clientOrderId s

theorem Replied.rely (h : Replied target clientOrderId s) (hst : ReportStep clientOrderId s t) :
    Replied target clientOrderId t := by
  obtain ⟨order, hcached, hid⟩ := h.object
  obtain ⟨order', hcached', hid', -⟩ := hst.object order hcached
  exact ⟨⟨order', hcached', hid'.trans hid⟩, h.reached.trans hst.cached, hst.row h.row,
    (hst.stored h.behind).1⟩

/-- Writing a cell whose object keeps its identity. -/
theorem ReplyStep.ofCache (hcached : s.inflight clientOrderId = some order) {order' : Order}
    (hsame : SameOrder order order') (hrank : rank order.status ≤ rank order'.status)
    (hstatus : order'.status = order.status ∨ order.status = .submitting ∧ order'.status = target) :
    ReplyStep target clientOrderId s (s.cache clientOrderId order') := by
  refine ⟨.ofCache hcached hrank, rfl, fun order₀ h => ⟨order', inflight_cache_self _ _ _, ?_⟩⟩
  obtain rfl : order = order₀ := Option.some.inj (hcached.symm.trans h)
  exact ⟨hsame, hstatus⟩

theorem ReplyStep.ofPersist (hcached : s.inflight clientOrderId = some order)
    (hid : order.clientOrderId = clientOrderId) : ReplyStep target clientOrderId s (persist s order) :=
  ⟨.ofPersist hcached hid, rfl, fun order₀ h => ⟨order₀, h, ⟨rfl, rfl, rfl⟩, .inl rfl⟩⟩

theorem rankOf_findOrder_persist (hcached : s.inflight clientOrderId = some order)
    (hid : order.clientOrderId = clientOrderId) (hrow : (findOrder s clientOrderId).isSome) :
    rankOf (findOrder (persist s order) clientOrderId) = rankOf (s.inflight clientOrderId) := by
  have hstored := storedStatus_persist hid hrow
  obtain ⟨row, hfound, hstatus⟩ := Option.map_eq_some_iff.mp hstored
  rw [hfound, hcached]
  exact congrArg rank hstatus

/-- What the suspended call promises: it returns normally when the order stays `SUBMITTING`
until its reply (`prompt`), it raises when the order has left `SUBMITTING` before (`late`), and
a normal return leaves the row at least at the acknowledged status. -/
def ReplyPost (prompt late : Prop) (target : OrderStatus) (clientOrderId : ClientOrderId)
    (result : Except TradingError Unit) (s : Store) : Prop :=
  (prompt → result = .ok ()) ∧ (late → result ≠ .ok ()) ∧
    (result = .ok () → rank target ≤ rankOf (findOrder s clientOrderId))

/-- The write-back after the reply, the last await of the call. -/
theorem writeReply_safe {Ok : PointCondition} {R : Store → Store → Prop} {prompt late : Prop}
    (hrely : ∀ s s', R s s' → ReportStep clientOrderId s s') (hlate : ¬late)
    (hs : Replied target clientOrderId s) :
    Safe Ok R (fun point _ => ReplyTurn target clientOrderId point)
      (ReplyPost prompt late target clientOrderId)
      (do
        .atomically (.updateState clientOrderId) fun _ => updateCached clientOrderId
        return ()) s := by
  refine Safe.atomically_bind fun t ht _ _ => ?_
  have htr := hs.rely (hrely _ _ ht)
  obtain ⟨order, hcached, hid⟩ := htr.object
  rw [exec_updateCached_ok hcached (by rw [hid]; exact htr.row)]
  have hwrite : ReplyStep target clientOrderId t (persist t order) := .ofPersist hcached hid
  have hwritten : rank target ≤ rankOf (findOrder (persist t order) clientOrderId) := by
    rw [rankOf_findOrder_persist hcached hid htr.row]
    exact htr.reached
  refine ⟨⟨hwrite, .of_progress hwrite.toProgress htr.behind (by simp)⟩, fun u hu => ?_⟩
  have hkept := ((hrely _ _ hu).stored (hwrite.stored htr.behind).1).2
  exact ⟨fun _ => rfl, fun h => absurd h hlate, fun _ => hwritten.trans hkept⟩

theorem awaitSubmission_safe {Ok : PointCondition} {R : Store → Store → Prop} {prompt late : Prop}
    (haccepted : submission.accepted = true)
    (hreply : ∀ reply s, Ok (.brokerReply clientOrderId) reply s →
      reply.submission = .returned submission)
    (hlate : late → ∀ reply s, Ok (.brokerReply clientOrderId) reply s →
      cachedStatus s clientOrderId ≠ some .submitting)
    (hrely : ∀ s s', R s s' → ReportStep clientOrderId s s')
    (hprompt : prompt → ∀ s s', R s s' → cachedStatus s clientOrderId = some .submitting →
      cachedStatus s' clientOrderId = some .submitting) (hs : AwaitsReply clientOrderId s)
    (hstart : cachedStatus s clientOrderId = some .submitting) :
    Safe Ok R (fun point _ => ReplyTurn (replyStatus submission) clientOrderId point)
      (ReplyPost prompt late (replyStatus submission) clientOrderId)
      (awaitSubmission clientOrderId) s := by
  unfold awaitSubmission
  refine Safe.atomically_bind fun t ht reply hok => ?_
  have hta := hs.rely (hrely _ _ ht)
  obtain ⟨order, hcached, hid, hstatus⟩ := hta.object
  rw [hreply reply t hok]
  -- which of the two tasks moves the order out of `SUBMITTING` decides the outcome
  by_cases hsubmitting : order.status = .submitting
  · rw [Block.exec_bind_ok (exec_reply haccepted hcached hsubmitting)]
    have hconfirmed := status_confirmed submission order
    have hrank := rank_replyStatus submission
    have hstep : ReplyStep (replyStatus submission) clientOrderId t
        (t.cache clientOrderId (confirmed submission.brokerOrderId order)) := by
      refine .ofCache hcached (sameOrder_confirmed _ _) ?_ (.inr ⟨hsubmitting, hconfirmed⟩)
      rw [hsubmitting, hconfirmed]
      exact le_trans (by decide) hrank
    have hreached : rank (replyStatus submission) ≤ rankOf ((t.cache clientOrderId
        (confirmed submission.brokerOrderId order)).inflight clientOrderId) := by
      rw [inflight_cache_self]
      exact le_of_eq (congrArg rank hconfirmed.symm)
    have hreplied : Replied (replyStatus submission) clientOrderId
        (t.cache clientOrderId (confirmed submission.brokerOrderId order)) :=
      ⟨⟨_, inflight_cache_self _ _ _, (sameOrder_confirmed _ _).clientOrderId.trans hid⟩, hreached,
        hta.row, (hstep.stored hta.behind).1⟩
    have hnotLate : ¬late := fun h => hlate h reply t hok (by simp [cachedStatus, hcached, hsubmitting])
    exact ⟨⟨hstep, ⟨hstep.cached, (hstep.stored hta.behind).2⟩, fun _ => hrank.trans hreached⟩,
      writeReply_safe hrely hnotLate hreplied⟩
  · have hbeyond := hstatus.resolve_left hsubmitting
    obtain ⟨order', hexec, hsame, hkept⟩ := exec_lateReply haccepted hcached hbeyond
    rw [Block.exec_bind_error hexec]
    have hstep : ReplyStep (replyStatus submission) clientOrderId t
        (t.cache clientOrderId order') :=
      .ofCache hcached hsame (by rw [hkept]) (.inl hkept)
    have hleft : rank .submitted ≤ rankOf ((t.cache clientOrderId order').inflight clientOrderId) := by
      rw [inflight_cache_self]
      change _ ≤ rank order'.status
      rw [hkept]
      exact le_trans (by decide) hbeyond
    have hnotPrompt : ¬prompt := fun h => by
      have hstill := hprompt h _ _ ht hstart
      simp only [cachedStatus, hcached, Option.map_some, Option.some.injEq] at hstill
      exact hsubmitting hstill
    exact ⟨⟨hstep, ⟨hstep.cached, (hstep.stored hta.behind).2⟩, fun _ => hleft⟩,
      fun v _ => ⟨fun h => absurd h hnotPrompt, by simp, by simp⟩⟩

end Reply

section Reports

/-- A turn of the consumer: as long as the order is `SUBMITTING`, the report it handles is the
acceptance. -/
structure ReportTurn (clientOrderId : ClientOrderId) (point : Point) (s s' : Store) : Prop where
  step : ReportStep clientOrderId s s'
  moves : Moves clientOrderId point s s'
  early : cachedStatus s clientOrderId = some .submitting →
    ∃ brokerOrderId, point = .markAccepted clientOrderId brokerOrderId

/-- The cached object as the reports handled so far imply it. -/
structure Tracks (clientOrderId : ClientOrderId) (quantity : ℚ) (known : List Fill)
    (status : OrderStatus) (booked : ℚ) (s : Store) : Prop where
  object : ∃ order, s.inflight clientOrderId = some order ∧ order.clientOrderId = clientOrderId ∧
    order.quantity = quantity ∧ order.filledQuantity = booked ∧ order.status = status
  fills : s.fills = known
  row : (findOrder s clientOrderId).isSome
  behind : RowBehind clientOrderId s

/-- A handled report has reached the row, unless the reply had brought its status already. -/
structure Reported (target : OrderStatus) (clientOrderId : ClientOrderId) (quantity : ℚ)
    (known : List Fill) (status : OrderStatus) (booked : ℚ) (s : Store) : Prop
    extends Tracks clientOrderId quantity known status booked s where
  written : status = target ∨ rank status ≤ rankOf (findOrder s clientOrderId)

namespace Tracks

theorem cachedStatus_eq (h : Tracks clientOrderId quantity known status booked s) :
    cachedStatus s clientOrderId = some status := by
  obtain ⟨order, hcached, -, -, -, hstatus⟩ := h.object
  simp [cachedStatus, hcached, hstatus]

/-- Once the order has left `SUBMITTING` the suspended call cannot move it. -/
theorem rely (h : Tracks clientOrderId quantity known status booked s) (hstatus : status ≠ .submitting)
    (hst : ReplyStep target clientOrderId s t) : Tracks clientOrderId quantity known status booked t := by
  obtain ⟨order, hcached, hid, hquantity, hbooked, hcurrent⟩ := h.object
  obtain ⟨order', hcached', hsame, hkept⟩ := hst.object order hcached
  have hstay : order'.status = order.status := by
    refine hkept.resolve_right fun hmoved => hstatus ?_
    rw [← hcurrent]
    exact hmoved.1
  exact ⟨⟨order', hcached', hsame.clientOrderId.trans hid, hsame.quantity.trans hquantity,
    hsame.filledQuantity.trans hbooked, hstay.trans hcurrent⟩, hst.fills.trans h.fills,
    hst.row h.row, (hst.stored h.behind).1⟩

/-- Only the cache, the rows and the stored fills matter. -/
theorem of_eq (h : Tracks clientOrderId quantity known status booked s)
    (hinflight : s'.inflight = s.inflight) (horders : s'.orders = s.orders) {fills : List Fill}
    (hfills : s'.fills = fills) : Tracks clientOrderId quantity fills status booked s' := by
  have hstep : Progress clientOrderId s s' := .of_eq hinflight horders
  exact ⟨by rw [hinflight]; exact h.object, hfills, hstep.row h.row, (hstep.stored h.behind).1⟩

/-- A block of the consumer after the acceptance. -/
theorem turn {point : Point} (h : Tracks clientOrderId quantity known status booked s)
    (hstatus : status ≠ .submitting) (hstep : ReportStep clientOrderId s s')
    (hpoint : point ≠ .brokerReply clientOrderId ∧
      ∀ brokerOrderId, point ≠ .markAccepted clientOrderId brokerOrderId) :
    ReportTurn clientOrderId point s s' := by
  refine ⟨hstep, .of_progress hstep.toProgress h.behind hpoint, fun hsubmitting => ?_⟩
  rw [h.cachedStatus_eq] at hsubmitting
  exact absurd (Option.some.inj hsubmitting) hstatus

end Tracks

/-- After the acceptance a stage survives whatever the suspended call does. -/
theorem Reported.rely (h : Reported target clientOrderId quantity known status booked s)
    (hstatus : status ≠ .submitting) (hst : ReplyStep target clientOrderId s t) :
    Reported target clientOrderId quantity known status booked t :=
  ⟨h.toTracks.rely hstatus hst, h.written.imp_right fun hwritten =>
    hwritten.trans (hst.stored h.behind).2⟩

theorem Reported.of_eq (h : Reported target clientOrderId quantity known status booked s)
    (hinflight : s'.inflight = s.inflight) (horders : s'.orders = s.orders)
    (hfills : s'.fills = s.fills) : Reported target clientOrderId quantity known status booked s' := by
  refine ⟨h.toTracks.of_eq hinflight horders (hfills.trans h.fills), ?_⟩
  unfold findOrder
  rw [horders]
  exact h.written

/-- The judgement of the consumer while the call is suspended. -/
abbrev Handles (target : OrderStatus) (clientOrderId : ClientOrderId) (Q : Store → Prop)
    (p : TradingTask Unit) (s : Store) : Prop :=
  Safe (fun _ _ _ => True) (ReplyStep target clientOrderId)
    (fun point _ => ReportTurn clientOrderId point) (fun _ t => Q t) p s

variable (fill : Fill)

/-- Updating the position does not touch the order. -/
theorem applyFill_handles (hstatus : status ≠ .submitting)
    (hs : Reported target clientOrderId quantity known status booked s) :
    Handles target clientOrderId (Reported target clientOrderId quantity known status booked)
      (applyFill account fill) s := by
  refine Safe.atomically_bind fun t ht _ _ => ?_
  have htr := hs.rely hstatus ht
  refine ⟨htr.turn hstatus (.refl t) (by simp), ?_⟩
  refine Safe.atomically fun u (hu : ReplyStep target clientOrderId t u) _ _ => ?_
  have hur := htr.rely hstatus hu
  rw [Block.exec_modify]
  refine ⟨hur.turn hstatus (.of_eq (inflight_upsertLocal _ u) (orders_upsertLocal _ u)) (by simp),
    fun v hv => Reported.rely ?_ hstatus hv⟩
  exact hur.of_eq (inflight_upsertLocal _ u) (orders_upsertLocal _ u) (fills_upsertLocal _ u)

/-- Writing the order back makes the row catch up. -/
theorem Tracks.writeBack (hs : Tracks clientOrderId quantity known status booked s)
    (hstatus : status ≠ .submitting) (target : OrderStatus) :
    ∃ order, (updateCached clientOrderId).exec s = (.ok (), persist s order) ∧
      ReportTurn clientOrderId (.updateState clientOrderId) s (persist s order) ∧
      Reported target clientOrderId quantity known status booked (persist s order) := by
  obtain ⟨order, hcached, hid, hquantity, hbooked, hcurrent⟩ := hs.object
  have hstep : ReportStep clientOrderId s (persist s order) := .ofPersist hcached hid
  have hwritten : rank status ≤ rankOf (findOrder (persist s order) clientOrderId) := by
    rw [rankOf_findOrder_persist hcached hid hs.row, hcached]
    exact le_of_eq (congrArg rank hcurrent.symm)
  have hnext : Tracks clientOrderId quantity known status booked (persist s order) :=
    ⟨hs.object, hs.fills, hstep.row hs.row, (hstep.stored hs.behind).1⟩
  exact ⟨order, exec_updateCached_ok hcached (by rw [hid]; exact hs.row),
    hs.turn hstatus hstep (by simp), hnext, .inr hwritten⟩

theorem writeFill_handles (hstatus : status ≠ .submitting)
    (hs : Tracks clientOrderId quantity known status booked s) :
    Handles target clientOrderId (Reported target clientOrderId quantity known status booked)
      (do
        .atomically (.updateState clientOrderId) fun _ => updateCached clientOrderId
        applyFill account fill) s := by
  refine Safe.atomically_bind fun t ht _ _ => ?_
  obtain ⟨order, hexec, hturn, hreported⟩ := (hs.rely hstatus ht).writeBack hstatus target
  rw [hexec]
  exact ⟨hturn, applyFill_handles fill hstatus hreported⟩

def filledStatus (quantity booked : ℚ) : OrderStatus :=
  if quantity ≤ booked then .filled else .partiallyFilled

theorem status_executed (order : Order) : (executed fill order).status =
      filledStatus order.quantity (order.filledQuantity + fill.quantity) := by
  unfold executed fillTarget filledStatus Order.remainingQuantity
  simp [addExecution]

theorem filledStatus_ne_submitting (quantity booked : ℚ) :
    filledStatus quantity booked ≠ .submitting := by
  unfold filledStatus
  split <;> decide

/-- The statuses in which the reported order can take another fill. -/
def fillableStatuses : List OrderStatus := [.acknowledged, .partiallyFilled]

theorem ne_submitting_of_fillable (h : status ∈ fillableStatuses) : status ≠ .submitting := by
  rintro rfl
  exact absurd h (by decide)

/-- A fillable order admits the next fill and advances with it. -/
theorem filledStatus_advances (h : status ∈ fillableStatuses) (quantity booked : ℚ) :
    canTransition status (filledStatus quantity booked) = true ∧
      rank status ≤ rank (filledStatus quantity booked) ∧
      rank .acknowledged ≤ rank (filledStatus quantity booked) := by
  unfold filledStatus
  revert h
  split <;> cases status <;> decide

theorem bookFill_handles (hstatus : status ∈ fillableStatuses)
    (hs : Tracks clientOrderId quantity known status booked s) :
    Handles target clientOrderId
      (Reported target clientOrderId quantity known (filledStatus quantity (booked + fill.quantity))
        (booked + fill.quantity))
      (do
        .atomically (.bookFill clientOrderId fill) fun _ => bookFill clientOrderId fill
        .atomically (.updateState clientOrderId) fun _ => updateCached clientOrderId
        applyFill account fill) s := by
  have hne := ne_submitting_of_fillable hstatus
  refine Safe.atomically_bind fun t ht _ _ => ?_
  have htr := hs.rely hne ht
  obtain ⟨order, hcached, hid, hquantity, hbooked, hcurrent⟩ := htr.object
  have hexecuted := status_executed fill order
  rw [hquantity, hbooked] at hexecuted
  obtain ⟨hlegal, hforward, hbeyond⟩ :=
    filledStatus_advances hstatus quantity (booked + fill.quantity)
  have hadmits : admitsFill fill order = true := by
    change canTransition order.status (executed fill order).status = true
    rwa [hexecuted, hcurrent]
  rw [exec_bookFill fill hcached, if_pos hadmits]
  have hcell : ReportStep clientOrderId t (t.cache clientOrderId (executed fill order)) := by
    refine .ofCache hcached rfl ?_ (.inr ?_)
    · rwa [hexecuted, hcurrent]
    · rwa [hexecuted]
  have hstep : ReportStep clientOrderId t { t.cache clientOrderId (executed fill order) with
      bookedFills := t.bookedFills ++ [fill] } := hcell.trans (.of_eq rfl rfl)
  refine ⟨htr.turn hne hstep (by simp), writeFill_handles fill (filledStatus_ne_submitting _ _) ?_⟩
  refine ⟨⟨executed fill order, inflight_cache_self _ _ _, hid, hquantity, ?_, hexecuted⟩,
    htr.fills, hstep.row htr.row, (hstep.stored htr.behind).1⟩
  rw [← hbooked]
  rfl

theorem onFilled_handles {event : BrokerEvent} {fill : Fill}
    (hevent : event.clientOrderId = some clientOrderId) (hfill : event.fill = some fill)
    (hnew : ∀ row ∈ known, row.fillId ≠ fill.fillId) (hstatus : status ∈ fillableStatuses)
    (hs : Reported target clientOrderId quantity known status booked s) : Handles target clientOrderId
      (Reported target clientOrderId quantity (known ++ [fill])
        (filledStatus quantity (booked + fill.quantity)) (booked + fill.quantity))
      (onFilled account event) s := by
  have hne := ne_submitting_of_fillable hstatus
  have hunknown : ∀ {t : Store}, t.fills = known → getFill t fill.fillId = none := by
    intro t hfills
    simpa [getFill, hfills] using hnew
  unfold onFilled
  rw [hevent, hfill]
  refine Safe.atomically_bind fun t ht _ _ => ?_
  have htr := hs.rely hne ht
  refine ⟨htr.turn hne (.refl t) (by simp), ?_⟩
  change Handles _ _ _ (if (getFill t fill.fillId).isSome then _ else _) t
  rw [hunknown htr.fills]
  refine Safe.atomically_bind fun u hu _ _ => ?_
  have hur := htr.rely hne hu
  obtain ⟨order, hcached, -⟩ := hur.object
  rw [exec_getOrderInflight hcached]
  refine ⟨hur.turn hne (.refl u) (by simp), ?_⟩
  refine Safe.atomically_bind fun v (hv : ReplyStep target clientOrderId u v) _ _ => ?_
  have hvr := hur.rely hne hv
  rw [exec_addFill, hunknown hvr.fills]
  have hstep : ReportStep clientOrderId v { v with fills := v.fills ++ [fill] } := .of_eq rfl rfl
  have hstored : Tracks clientOrderId quantity (known ++ [fill]) status booked
      { v with fills := v.fills ++ [fill] } := by
    refine hvr.toTracks.of_eq ?_ ?_ ?_ <;> simp [hvr.fills]
  exact ⟨hvr.turn hne hstep (by simp), bookFill_handles fill hstatus hstored⟩

/-- The statuses an `ACCEPTED` report acknowledges. -/
def unacknowledgedStatuses : List OrderStatus := [.submitting, .submitted, .unknown]

/-- The outcome of an `ACCEPTED` report: true when the object was still to be acknowledged. -/
theorem exec_acknowledge (hcached : s.inflight clientOrderId = some order)
    (brokerOrderId : Option String) : ∃ order', (acknowledge clientOrderId brokerOrderId).exec s =
        (.ok (decide (order.status ∈ unacknowledgedStatuses)), s.cache clientOrderId order') ∧
      SameOrder order order' ∧ order'.status = if order.status ∈ unacknowledgedStatuses then .acknowledged
        else order.status := by
  -- from the object that carries the broker id on, the status decides
  have hrest : ∀ named : Order, SameOrder order named → named.status = order.status →
      ∃ order', Block.exec (if order.status ∈ unacknowledgedStatuses then do
            transition clientOrderId .acknowledged
            return true
          else return false : Session Bool) (s.cache clientOrderId named) =
          (.ok (decide (order.status ∈ unacknowledgedStatuses)), s.cache clientOrderId order') ∧
        SameOrder order order' ∧
        order'.status = if order.status ∈ unacknowledgedStatuses then .acknowledged
          else order.status := by
    intro named hsame hkept
    have hcell := inflight_cache_self s named clientOrderId
    by_cases hopen : order.status ∈ unacknowledgedStatuses
    · have hlegal : canTransition named.status .acknowledged = true := by
        rw [hkept]
        revert hopen
        cases order.status <;> decide
      refine ⟨{ named with status := .acknowledged }, ?_, ⟨hsame.1, hsame.2, hsame.3⟩, by simp [hopen]⟩
      rw [if_pos hopen, Block.exec_bind_ok (exec_transition_ok hcell hlegal), cache_cache]
      simp [hopen]
    · exact ⟨named, by simp [hopen], hsame, by simp [hopen, hkept]⟩
  unfold acknowledge
  rw [Block.exec_bind_ok (exec_getOrderInflight hcached)]
  dsimp only
  rw [Block.exec_ite]
  split
  · rw [Block.exec_bind_ok (exec_mutateOrder _ hcached)]
    exact hrest _ ⟨rfl, rfl, rfl⟩ rfl
  · have hsame := hrest order ⟨rfl, rfl, rfl⟩ rfl
    rwa [cache_self hcached] at hsame

/-- Before the acceptance is handled the order is `SUBMITTING` or as the reply left it. -/
def Waiting (target : OrderStatus) (clientOrderId : ClientOrderId) (quantity : ℚ)
    (known : List Fill) (s : Store) : Prop :=
  Tracks clientOrderId quantity known .submitting 0 s ∨ Tracks clientOrderId quantity known target 0 s

theorem Waiting.rely (h : Waiting target clientOrderId quantity known s) (htarget : target ≠ .submitting)
    (hst : ReplyStep target clientOrderId s t) : Waiting target clientOrderId quantity known t := by
  obtain hsubmitting | hreplied := h
  · obtain ⟨order, hcached, hid, hquantity, hbooked, hstatus⟩ := hsubmitting.object
    obtain ⟨order', hcached', hsame, hmoved⟩ := hst.object order hcached
    have hnext : ∀ {status : OrderStatus}, order'.status = status →
        Tracks clientOrderId quantity known status 0 t := fun hcurrent =>
      ⟨⟨order', hcached', hsame.clientOrderId.trans hid, hsame.quantity.trans hquantity,
        hsame.filledQuantity.trans hbooked, hcurrent⟩, hst.fills.trans hsubmitting.fills,
        hst.row hsubmitting.row, (hst.stored hsubmitting.behind).1⟩
    obtain hstay | ⟨-, hto⟩ := hmoved
    · exact .inl (hnext (hstay.trans hstatus))
    · exact .inr (hnext hto)
  · exact .inr (hreplied.rely htarget hst)

theorem onAccepted_handles {event : BrokerEvent} {submission : SubmissionResult}
    (hevent : event.clientOrderId = some clientOrderId)
    (hs : Waiting (replyStatus submission) clientOrderId quantity known s) :
    Handles (replyStatus submission) clientOrderId
      (Reported (replyStatus submission) clientOrderId quantity known .acknowledged 0)
      (onAccepted event) s := by
  have htarget : replyStatus submission ≠ .submitting := by
    unfold replyStatus
    split <;> decide
  unfold onAccepted
  rw [hevent]
  refine Safe.atomically_bind fun t ht _ _ => ?_
  obtain ⟨status, htracks, hrank, hcase⟩ : ∃ status,
      Tracks clientOrderId quantity known status 0 t ∧ rank status ≤ rank .acknowledged ∧
        (status ∈ unacknowledgedStatuses ∨
          status = .acknowledged ∧ replyStatus submission = .acknowledged) := by
    obtain hsubmitting | hreplied := hs.rely htarget ht
    · exact ⟨_, hsubmitting, by decide, .inl (by decide)⟩
    · refine ⟨_, hreplied, ?_⟩
      unfold replyStatus
      split <;> decide
  obtain ⟨order, hcached, hid, hquantity, hbooked, rfl⟩ := htracks.object
  obtain ⟨order', hexec, hsame, hnext⟩ := exec_acknowledge hcached event.brokerOrderId
  have hacknowledged : order'.status = .acknowledged := by
    rw [hnext]
    split
    · rfl
    · rename_i hclosed
      exact (hcase.resolve_left hclosed).1
  have hstep : ReportStep clientOrderId t (t.cache clientOrderId order') := by
    refine .ofCache hcached hsame.clientOrderId ?_ (.inr (by rw [hacknowledged]))
    rwa [hacknowledged]
  have hnextTracks : Tracks clientOrderId quantity known .acknowledged 0
      (t.cache clientOrderId order') :=
    ⟨⟨order', inflight_cache_self _ _ _, hsame.clientOrderId.trans hid,
      hsame.quantity.trans hquantity, hsame.filledQuantity.trans hbooked, hacknowledged⟩,
      htracks.fills, hstep.row htracks.row, (hstep.stored htracks.behind).1⟩
  have hleaves : rank .submitted ≤ rankOf ((t.cache clientOrderId order').inflight clientOrderId) := by
    rw [inflight_cache_self]
    change _ ≤ rank order'.status
    rw [hacknowledged]
    decide
  rw [hexec]
  refine ⟨⟨hstep, ⟨⟨hstep.cached, (hstep.stored htracks.behind).2⟩, fun _ => hleaves⟩,
    fun _ => ⟨_, rfl⟩⟩, ?_⟩
  by_cases hopen : order.status ∈ unacknowledgedStatuses
  · rw [decide_eq_true hopen]
    refine Safe.atomically fun u (hu : ReplyStep _ clientOrderId _ u) _ _ => ?_
    obtain ⟨current, hwrite, hturn, hreported⟩ :=
      (hnextTracks.rely (by decide) hu).writeBack (by decide) (replyStatus submission)
    rw [hwrite]
    exact ⟨hturn, fun v hv => hreported.rely (by decide) hv⟩
  · rw [decide_eq_false hopen]
    have hreported : Reported (replyStatus submission) clientOrderId quantity known .acknowledged 0
        (t.cache clientOrderId order') :=
      ⟨hnextTracks, .inl (hcase.resolve_left hopen).2.symm⟩
    exact fun u hu => hreported.rely (by decide) hu

end Reports

end FinDashboard.Core
