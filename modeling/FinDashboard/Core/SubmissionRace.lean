import FinDashboard.Core.SubmissionTasks
import FinDashboard.Ledger.Totals

/-!
# The race between the reply and the reports

All interleavings of one suspended submission and the consumer of its order's reports. The
consumer leaves the order in the status its reports imply whatever the schedule.
-/

namespace FinDashboard.Core

open Async Broker Ledger Persistence List

variable {account : AccountId} {clientOrderId : ClientOrderId} {s t : Store} {order : Order}
  {target status : OrderStatus} {quantity booked : ℚ} {known : List Fill}

/-- The executions some events report. -/
def fillsOf (events : List BrokerEvent) : List Fill := events.filterMap (·.fill)

def quantityOf (fills : List Fill) : ℚ := total (·.quantity) fills

def statusAfter (quantity booked : ℚ) (status : OrderStatus) : List Fill → OrderStatus
  | [] => status
  | fill :: rest => statusAfter quantity (booked + fill.quantity)
      (filledStatus quantity (booked + fill.quantity)) rest

def impliedStatus (quantity : ℚ) (fills : List Fill) : OrderStatus :=
  if fills.isEmpty then .acknowledged else filledStatus quantity (quantityOf fills)

/-- What a broker may report of an accepted order: the acceptance, then new executions of
positive size within the quantity of the order. -/
structure LegalReports (s : Store) (order : Order) (accepted : BrokerEvent)
    (executions : List BrokerEvent) : Prop where
  acceptance : accepted.type = .orderAccepted ∧ accepted.clientOrderId = some order.clientOrderId
  execution : ∀ event ∈ executions, event.type = .orderFilled ∧
    event.clientOrderId = some order.clientOrderId ∧ event.fill.isSome
  positive : ∀ fill ∈ fillsOf executions, 0 < fill.quantity
  new : ∀ fill ∈ fillsOf executions, ∀ row ∈ s.fills, row.fillId ≠ fill.fillId
  distinct : ((fillsOf executions).map (·.fillId)).Nodup
  within : quantityOf (fillsOf executions) ≤ order.quantity

/-- `place_order` is suspended in the broker call: the order is cached as `SUBMITTING` and its row
is still `RISK_CHECKED`. -/
structure Suspended (s : Store) (order : Order) : Prop where
  cached : s.inflight order.clientOrderId = some order
  status : order.status = .submitting
  unfilled : order.filledQuantity = 0
  stored : storedStatus s order.clientOrderId = some .riskChecked

/-- The block of `place_order` before the broker call leaves the order so. -/
theorem suspended_cacheOrder {request : OrderRequest}
    (hrow : findOrder s clientOrderId = some (newOrder account request clientOrderId)) :
    Suspended ((cacheOrder (newOrder account request clientOrderId)).exec s).2
      { newOrder account request clientOrderId with status := .submitting } := by
  rw [exec_cacheOrder rfl]
  exact ⟨inflight_cache_self _ _ _, rfl, rfl, congrArg (·.map (·.status)) hrow⟩

theorem Suspended.awaitsReply (hs : Suspended s order) : AwaitsReply order.clientOrderId s := by
  obtain ⟨row, hrow, hstored⟩ := Option.map_eq_some_iff.mp hs.stored
  refine ⟨⟨order, hs.cached, rfl, .inl hs.status⟩, by rw [hrow]; rfl, ?_⟩
  unfold RowBehind
  rw [hrow, hs.cached]
  change rank row.status ≤ rank order.status
  rw [hstored, hs.status]
  decide

/-- The consumer with its events, and the suspended call. -/
def submitting (account : AccountId) (clientOrderId : ClientOrderId) (events : List BrokerEvent)
    (s : Store) : TaskPool :=
  ⟨s, [consumeBrokerEvents account events, awaitSubmission clientOrderId]⟩

def accepts (submission : SubmissionResult) : PointCondition
  | .brokerReply _, reply, _ => reply.submission = .returned submission
  | _, _, _ => True

instance (submission : SubmissionResult) :
    ∀ point reply s, Decidable (accepts submission point reply s) := by
  intro point reply s
  apply Point.casesOn (motive := fun point => Decidable (accepts submission point reply s)) point <;>
    intros <;> (unfold accepts; infer_instance)

def repliedFirst (clientOrderId : ClientOrderId) : PointCondition
  | .markAccepted other _, _, s => other = clientOrderId → cachedStatus s other ≠ some .submitting
  | _, _, _ => True

instance : ∀ point reply s, Decidable (repliedFirst clientOrderId point reply s) := by
  intro point reply s
  apply Point.casesOn
    (motive := fun point => Decidable (repliedFirst clientOrderId point reply s)) point <;>
    intros <;> (unfold repliedFirst; infer_instance)

/-- A run of the suspended call and its reports that goes well. -/
structure SubmissionHandled (p : TaskPool) (clientOrderId : ClientOrderId) (implied : OrderStatus)
    (schedule : List (ℕ × Reply)) : Prop where
  returns : (p.exec schedule).result? 1 = some (.ok ())
  forward : ∀ turn ∈ p.turns schedule, Forward clientOrderId turn.before turn.after
  cached : cachedStatus (p.exec schedule).shared clientOrderId = some implied
  stored : storedStatus (p.exec schedule).shared clientOrderId = some implied

section Consumer

theorem consume_handles {event : BrokerEvent} {rest : List BrokerEvent} {Q Q' : Store → Prop}
    (hrely : ∀ {t u : Store}, ReplyStep target clientOrderId t u → Q t → Q u)
    (hevent : Handles target clientOrderId Q (handleBrokerEvent account event) s)
    (hrest : ∀ {t : Store}, Q t → Handles target clientOrderId Q' (consumeBrokerEvents account rest) t) :
    Handles target clientOrderId Q' (consumeBrokerEvents account (event :: rest)) s := by
  refine Safe.bind ReplyStep.refl (Safe.tryCatch ReplyStep.refl ?_)
  refine Safe.mono (fun _ _ _ h => h) (fun _ _ h => h) (fun _ _ _ _ _ h => h) ?_ hevent
  intro result t ht
  cases result with
  | ok a => exact fun u hu => hrest (hrely hu ht)
  | error e => exact fun u hu => hrest (hrely hu ht)

/-- Of the statuses on the way only the last counts. -/
theorem statusAfter_cons (fill : Fill) (rest : List Fill) :
    statusAfter quantity booked status (fill :: rest) =
      filledStatus quantity (booked + quantityOf (fill :: rest)) := by
  induction rest generalizing booked status fill with
  | nil => simp [statusAfter, quantityOf]
  | cons next rest ih =>
    rw [statusAfter, ih]
    simp only [quantityOf, total_cons, add_assoc]

theorem statusAfter_acknowledged (quantity : ℚ) (fills : List Fill) :
    statusAfter quantity 0 .acknowledged fills = impliedStatus quantity fills := by
  cases fills with
  | nil => rfl
  | cons fill rest => simp [statusAfter_cons, impliedStatus]

theorem consumeExecutions_handles {executions : List BrokerEvent}
    (hexecution : ∀ event ∈ executions, event.type = .orderFilled ∧
      event.clientOrderId = some clientOrderId ∧ event.fill.isSome)
    (hpositive : ∀ fill ∈ fillsOf executions, 0 < fill.quantity)
    (hnew : ∀ fill ∈ fillsOf executions, ∀ row ∈ known, row.fillId ≠ fill.fillId)
    (hdistinct : ((fillsOf executions).map (·.fillId)).Nodup)
    (hwithin : booked + quantityOf (fillsOf executions) ≤ quantity)
    (hstatus : status ∈ fillableStatuses ∨ status = .filled ∧ quantity ≤ booked)
    (hs : Reported target clientOrderId quantity known status booked s) : Handles target clientOrderId
      (fun t => ∃ known' booked', Reported target clientOrderId quantity known'
        (statusAfter quantity booked status (fillsOf executions)) booked' t)
      (consumeBrokerEvents account executions) s := by
  induction executions generalizing known booked status s with
  | nil =>
    have hne : status ≠ .submitting := by
      obtain hfillable | ⟨rfl, -⟩ := hstatus
      · exact ne_submitting_of_fillable hfillable
      · decide
    exact fun u hu => ⟨known, booked, hs.rely hne hu⟩
  | cons event rest ih =>
    obtain ⟨htype, hid, hfill⟩ := hexecution event mem_cons_self
    obtain ⟨fill, hfill⟩ := Option.isSome_iff_exists.mp hfill
    have hfills : fillsOf (event :: rest) = fill :: fillsOf rest := by simp [fillsOf, hfill]
    rw [hfills] at hpositive hnew hdistinct hwithin ⊢
    simp only [quantityOf, total_cons, map_cons, nodup_cons] at hwithin hdistinct
    have hfirst := hpositive fill mem_cons_self
    have hlater := total_nonneg fun later hmem =>
      (hpositive later (mem_cons_of_mem _ hmem)).le
    have hfillable := hstatus.resolve_right fun hfull => by linarith [hfull.2]
    refine consume_handles (Q := Reported target clientOrderId quantity (known ++ [fill])
      (filledStatus quantity (booked + fill.quantity)) (booked + fill.quantity))
      (fun hu hr => hr.rely (filledStatus_ne_submitting _ _) hu) ?_ ?_
    · unfold handleBrokerEvent
      rw [htype]
      exact onFilled_handles hid hfill (hnew fill mem_cons_self) hfillable hs
    · intro t ht
      refine ih (fun e he => hexecution e (mem_cons_of_mem _ he))
        (fun f hf => hpositive f (mem_cons_of_mem _ hf)) ?_ hdistinct.2 ?_ ?_ ht
      · intro f hf row hrow
        obtain hold | rfl := by simpa using hrow
        · exact hnew f (mem_cons_of_mem _ hf) row hold
        · exact fun heq => hdistinct.1 (heq ▸ mem_map_of_mem hf)
      · unfold quantityOf
        linarith
      · unfold filledStatus
        split
        · exact .inr ⟨rfl, by assumption⟩
        · exact .inl (by decide)

theorem consumeReports_handles {submission : SubmissionResult} {accepted : BrokerEvent}
    {executions : List BrokerEvent} (hs : Suspended s order)
    (hreports : LegalReports s order accepted executions) :
    Handles (replyStatus submission) order.clientOrderId
      (fun t => ∃ known booked, Reported (replyStatus submission) order.clientOrderId
        order.quantity known (impliedStatus order.quantity (fillsOf executions)) booked t)
      (consumeBrokerEvents account (accepted :: executions)) s := by
  have hwaits := hs.awaitsReply
  have htracks : Tracks order.clientOrderId order.quantity s.fills .submitting 0 s :=
    ⟨⟨order, hs.cached, rfl, rfl, hs.unfilled, hs.status⟩, rfl, hwaits.row, hwaits.behind⟩
  refine consume_handles (Q := Reported (replyStatus submission) order.clientOrderId
    order.quantity s.fills .acknowledged 0) (fun hu hr => hr.rely (by decide) hu) ?_
    fun {t} ht => ?_
  · unfold handleBrokerEvent
    rw [hreports.acceptance.1]
    exact onAccepted_handles hreports.acceptance.2 (.inl htracks)
  · rw [← statusAfter_acknowledged]
    exact consumeExecutions_handles hreports.execution hreports.positive hreports.new
      hreports.distinct (by simpa using hreports.within) (.inl (by decide)) ht

end Consumer

section Runs

variable {submission : SubmissionResult} {accepted : BrokerEvent} {executions : List BrokerEvent}
  {schedule : List (ℕ × Reply)} {prompt late : Prop}

/-- The runs considered: the submission is accepted; in a `prompt` run the reply comes before the
acceptance is handled, in a `late` one the reply never finds the order `SUBMITTING`. -/
def raceCondition (clientOrderId : ClientOrderId) (submission : SubmissionResult)
    (prompt late : Prop) (point : Point) (reply : Reply) (s : Store) : Prop :=
  accepts submission point reply s ∧ (prompt → repliedFirst clientOrderId point reply s) ∧
    (late → point = .brokerReply clientOrderId → cachedStatus s clientOrderId ≠ some .submitting)

/-- The contracts of the consumer (task 0) and of the suspended call (task 1). -/
def raceContract (order : Order) (submission : SubmissionResult) (executions : List BrokerEvent)
    (prompt late : Prop) : ℕ → Contract Store Reply Point TradingError Unit
  | 0 =>
    { rely := ReplyStep (replyStatus submission) order.clientOrderId
      guar := fun point _ s s' => ReportTurn order.clientOrderId point s s' ∧
        (prompt → cachedStatus s order.clientOrderId ≠ some .submitting)
      post := fun _ t => ∃ known booked, Reported (replyStatus submission) order.clientOrderId
        order.quantity known (impliedStatus order.quantity (fillsOf executions)) booked t
      rely_refl := ReplyStep.refl
      rely_trans := fun _ _ _ h h' => h.trans h' }
  | 1 =>
    { rely := fun s s' => ReportStep order.clientOrderId s s' ∧
        (prompt → cachedStatus s order.clientOrderId = some .submitting →
          cachedStatus s' order.clientOrderId = some .submitting)
      guar := fun point _ => ReplyTurn (replyStatus submission) order.clientOrderId point
      post := ReplyPost prompt late (replyStatus submission) order.clientOrderId
      rely_refl := fun s => ⟨.refl s, fun _ h => h⟩
      rely_trans := fun _ _ _ h h' => ⟨h.1.trans h'.1, fun hp hs => h'.2 hp (h.2 hp hs)⟩ }
  | _ + 2 =>
    { rely := fun _ _ => True
      guar := fun _ _ _ _ => False
      post := fun _ _ => True
      rely_refl := fun _ => trivial
      rely_trans := fun _ _ _ _ _ => trivial }

theorem raceContract_compatible (n m : ℕ) (hnm : n ≠ m) (point : Point) (reply : Reply) (s s' : Store)
    (h : (raceContract order submission executions prompt late n).guar point reply s s') :
    (raceContract order submission executions prompt late m).rely s s' := by
  match n, m with
  | 0, 0 => exact absurd rfl hnm
  | 0, 1 => exact ⟨h.1.step, fun hprompt hsubmitting => absurd hsubmitting (h.2 hprompt)⟩
  | 1, 0 => exact h.step
  | 1, 1 => exact absurd rfl hnm
  | _ + 2, _ => exact h.elim
  | 0, _ + 2 => trivial
  | 1, _ + 2 => trivial

/-- Both tasks satisfy their contracts at the start. -/
theorem race_safe (haccepted : submission.accepted = true) (hs : Suspended s order)
    (hreports : LegalReports s order accepted executions) :
    (submitting account order.clientOrderId (accepted :: executions) s).Safe
      (raceContract order submission executions prompt late)
      (raceCondition order.clientOrderId submission prompt late) := by
  have hstart : cachedStatus s order.clientOrderId = some .submitting := by
    simp [cachedStatus, hs.cached, hs.status]
  rintro (_ | _ | n) task htask
  · obtain rfl : consumeBrokerEvents account (accepted :: executions) = task := by
      simpa [submitting] using htask
    refine Safe.mono (fun _ _ _ _ => trivial) (fun _ _ h => h) ?_ (fun _ _ h => h)
      (consumeReports_handles hs hreports)
    -- in a prompt run no report is handled while the order is `SUBMITTING`
    intro point reply t t' hok hturn
    refine ⟨hturn, fun hprompt hsubmitting => ?_⟩
    obtain ⟨brokerOrderId, rfl⟩ := hturn.early hsubmitting
    exact hok.2.1 hprompt rfl hsubmitting
  · obtain rfl : awaitSubmission order.clientOrderId = task := by simpa [submitting] using htask
    exact awaitSubmission_safe haccepted (fun _ _ hok => hok.1)
      (fun hlate _ _ hok => hok.2.2 hlate rfl) (fun _ _ h => h.1) (fun hprompt _ _ h => h.2 hprompt)
      hs.awaitsReply hstart
  · simp [submitting] at htask

/-- Every block moves forward, and the finished tasks have established their postconditions. -/
theorem race_run {p : TaskPool}
    (hp : p = submitting account order.clientOrderId (accepted :: executions) s)
    (haccepted : submission.accepted = true) (hs : Suspended s order)
    (hreports : LegalReports s order accepted executions)
    (hok : p.Admits (raceCondition order.clientOrderId submission prompt late) schedule)
    (hconsumer : ((p.exec schedule).result? 0).isSome)
    {outcome : Except TradingError Unit} (hcall : (p.exec schedule).result? 1 = some outcome) :
    (∀ turn ∈ p.turns schedule, Moves order.clientOrderId turn.label turn.before turn.after) ∧
    (∃ known booked, Reported (replyStatus submission) order.clientOrderId order.quantity known
      (impliedStatus order.quantity (fillsOf executions)) booked (p.exec schedule).shared) ∧
    ReplyPost prompt late (replyStatus submission) order.clientOrderId outcome
      (p.exec schedule).shared := by
  subst hp
  obtain ⟨hend, hturns⟩ := Pool.Safe.exec raceContract_compatible
    (race_safe haccepted hs hreports) schedule hok
  obtain ⟨consumed, hconsumed⟩ := Option.isSome_iff_exists.mp hconsumer
  refine ⟨fun turn hturn => ?_, hend.result hconsumed, hend.result hcall⟩
  have hguar := hturns turn hturn
  match htask : turn.task with
  | 0 =>
    rw [htask] at hguar
    exact hguar.1.moves
  | 1 =>
    rw [htask] at hguar
    exact hguar.moves
  | n + 2 =>
    rw [htask] at hguar
    exact hguar.elim

theorem rankOf_inflight (h : cachedStatus s clientOrderId = some status) :
    rankOf (s.inflight clientOrderId) = rank status := by
  obtain ⟨order, hcached, rfl⟩ := Option.map_eq_some_iff.mp h
  rw [hcached]
  rfl

/-- A row between the implied status and the cached object has the implied status. -/
theorem storedStatus_of_rank (hstored : rank status ≤ rankOf (findOrder s clientOrderId))
    (hbehind : RowBehind clientOrderId s) (hcached : cachedStatus s clientOrderId = some status)
    (hstatus : rank .acknowledged ≤ rank status ∧ rank status ≤ 6) :
    storedStatus s clientOrderId = some status := by
  obtain ⟨order, hobject, rfl⟩ := Option.map_eq_some_iff.mp hcached
  unfold RowBehind at hbehind
  unfold storedStatus
  rw [hobject] at hbehind
  cases hrow : findOrder s clientOrderId with
  | none =>
    rw [hrow] at hstored
    exact absurd (hstatus.1.trans hstored) (by decide)
  | some row =>
    rw [hrow] at hstored hbehind
    exact congrArg some (status_of_rank (le_antisymm hbehind hstored) hstatus.2)

theorem rank_impliedStatus (quantity : ℚ) (fills : List Fill) :
    rank .acknowledged ≤ rank (impliedStatus quantity fills) ∧
      rank (impliedStatus quantity fills) ≤ 6 := by
  unfold impliedStatus filledStatus
  split
  · decide
  · split <;> decide

/-- Every finished run of an accepted submission and the legal reports of its order goes well if
and only if the acceptance is handled after the submission has its reply. -/
theorem submissionHandled_iff_repliedFirst (haccepted : submission.accepted = true)
    (hs : Suspended s order) (hreports : LegalReports s order accepted executions) {p : TaskPool}
    (hp : p = submitting account order.clientOrderId (accepted :: executions) s)
    (hreply : p.Admits (accepts submission) schedule) (hconsumer : ((p.exec schedule).result? 0).isSome)
    (hcall : ((p.exec schedule).result? 1).isSome) :
    SubmissionHandled p order.clientOrderId (impliedStatus order.quantity (fillsOf executions))
      schedule ↔ p.Admits (repliedFirst order.clientOrderId) schedule := by
  obtain ⟨outcome, houtcome⟩ := Option.isSome_iff_exists.mp hcall
  have hrun (prompt late : Prop)
      (hok : p.Admits (raceCondition order.clientOrderId submission prompt late) schedule) :=
    race_run hp haccepted hs hreports hok hconsumer houtcome
  obtain ⟨hmoves, ⟨known, booked, hreported⟩, -, -, hwritten⟩ := hrun False False
    fun turn hturn => ⟨hreply turn hturn, fun h => h.elim, fun h => h.elim⟩
  constructor
  · -- a reply that found the order `SUBMITTING` and such an acceptance exclude each other
    intro hhandled
    have hfound : ∃ turn ∈ p.turns schedule, turn.label = .brokerReply order.clientOrderId ∧
        cachedStatus turn.before order.clientOrderId = some .submitting := by
      by_contra hnone
      obtain ⟨-, -, -, hlate, -⟩ := hrun False True fun turn hturn =>
        ⟨hreply turn hturn, fun h => h.elim, fun _ hlabel hsubmitting =>
          hnone ⟨turn, hturn, hlabel, hsubmitting⟩⟩
      exact hlate trivial (Option.some.inj (houtcome.symm.trans hhandled.returns))
    obtain ⟨replied, hmem, hlabel, hsubmitting⟩ := hfound
    intro turn hturn
    cases hpoint : turn.label with
    | markAccepted other brokerOrderId =>
      rintro rfl hearly
      have hne : turn ≠ replied := by
        rintro rfl
        rw [hpoint] at hlabel
        cases hlabel
      have hleft := (hmoves turn hturn).leaves (.inr ⟨brokerOrderId, hpoint⟩)
      have hleft' := (hmoves replied hmem).leaves (.inl hlabel)
      have hbefore := rankOf_inflight hearly
      have hbefore' := rankOf_inflight hsubmitting
      have hbound : rank .submitted = 3 ∧ rank .submitting = 2 := ⟨rfl, rfl⟩
      obtain hlater | hlater := Pool.turns_comparable
        (fun s => rankOf (s.inflight order.clientOrderId)) (fun t ht => (hmoves t ht).cached)
        hturn hmem hne
      · omega
      · omega
    | _ => trivial
  · intro hfirst
    obtain ⟨-, -, hprompt, -, -⟩ := hrun True False fun turn hturn =>
      ⟨hreply turn hturn, fun _ => hfirst turn hturn, fun h => h.elim⟩
    have hok := hprompt trivial
    have hcached := hreported.cachedStatus_eq
    refine ⟨by rw [houtcome, hok], fun turn hturn => (hmoves turn hturn).toForward, hcached, ?_⟩
    refine storedStatus_of_rank ?_ hreported.behind hcached (rank_impliedStatus _ _)
    obtain heq | hrank := hreported.written
    · rw [heq]
      exact hwritten hok
    · exact hrank

end Runs

section Examples

/-- The order of a placed request, cached and about to be submitted. -/
def submittedStore : Store :=
  ((cacheOrder (newOrder "acc" buyRequest "o1")).exec
    (Store.insertOrder { ready := true } (newOrder "acc" buyRequest "o1"))).2

def submittedOrder : Order := { newOrder "acc" buyRequest "o1" with status := .submitting }

theorem legalReports_submitted (fills : List Fill)
    (hfills : (∀ fill ∈ fills, fill.clientOrderId = "o1" ∧ 0 < fill.quantity) ∧
      (fills.map (·.fillId)).Nodup ∧ quantityOf fills ≤ 100) :
    LegalReports submittedStore submittedOrder acceptedEvent (fills.map filledEvent) := by
  have hreported : fillsOf (fills.map filledEvent) = fills := by
    simp [fillsOf, filterMap_map, filledEvent, Function.comp_def]
  refine ⟨⟨rfl, rfl⟩, ?_, ?_, ?_, ?_, ?_⟩
  · intro event hevent
    obtain ⟨fill, hfill, rfl⟩ := mem_map.mp hevent
    exact ⟨rfl, congrArg some (hfills.1 fill hfill).1, rfl⟩
  · rw [hreported]
    exact fun fill hfill => (hfills.1 fill hfill).2
  · exact fun _ _ row hrow => absurd hrow (not_mem_nil)
  · rw [hreported]
    exact hfills.2.1
  · rw [hreported]
    exact hfills.2.2

/-- The acceptance and two fills of a suspended submission. -/
def reportedSubmission : TaskPool :=
  submitting "acc" "o1" (acceptedEvent :: [buyFill "f1" 40, buyFill "f2" 60].map filledEvent)
    submittedStore

/-- The reply comes first; the call writes the order back while the fills are handled. -/
def replyFirstSchedule : List (ℕ × Reply) :=
  turnsOf 1 1 {} ++ turnsOf 0 6 {} ++ turnsOf 1 1 {} ++ turnsOf 0 12 {}

theorem reportedSubmission_handled :
    impliedStatus submittedOrder.quantity
        (fillsOf ([buyFill "f1" 40, buyFill "f2" 60].map filledEvent)) = .filled ∧
      SubmissionHandled reportedSubmission submittedOrder.clientOrderId
        (impliedStatus submittedOrder.quantity
          (fillsOf ([buyFill "f1" 40, buyFill "f2" 60].map filledEvent))) replyFirstSchedule :=
  ⟨by decide +kernel,
    (submissionHandled_iff_repliedFirst (p := reportedSubmission) (rfl : ({} : SubmissionResult).accepted = true)
      (suspended_cacheOrder rfl) (legalReports_submitted [buyFill "f1" 40, buyFill "f2" 60]
        (by decide +kernel)) rfl (by decide +kernel) (by decide +kernel) (by decide +kernel)).mpr
      (by decide +kernel)⟩

/-- The acceptance is handled while the submission waits for its reply. -/
def earlyAcceptance : TaskPool := submitting "acc" "o1" [acceptedEvent] submittedStore

theorem earlyAcceptance_raises :
    Suspended submittedStore submittedOrder ∧
      LegalReports submittedStore submittedOrder acceptedEvent [] ∧
      earlyAcceptance.Admits (accepts {}) (turnsOf 0 2 {} ++ turnsOf 1 1 {}) ∧
      (earlyAcceptance.exec (turnsOf 0 2 {} ++ turnsOf 1 1 {})).result? 0 = some (.ok ()) ∧
      (earlyAcceptance.exec (turnsOf 0 2 {} ++ turnsOf 1 1 {})).result? 1 =
        some (.error (.invalidStateTransition .acknowledged .submitted)) ∧
      ¬SubmissionHandled earlyAcceptance "o1" .acknowledged (turnsOf 0 2 {} ++ turnsOf 1 1 {}) := by
  have hraised : (earlyAcceptance.exec (turnsOf 0 2 {} ++ turnsOf 1 1 {})).result? 1 =
      some (.error (.invalidStateTransition .acknowledged .submitted)) := by decide +kernel
  refine ⟨suspended_cacheOrder rfl, legalReports_submitted [] (by simp [quantityOf]),
    by decide +kernel, by decide +kernel, hraised, fun h => ?_⟩
  have hreturns := h.returns
  rw [hraised] at hreturns
  cases hreturns

end Examples

end FinDashboard.Core
