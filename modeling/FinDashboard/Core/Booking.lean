import FinDashboard.Core.FillProtocol
import Mathlib.Tactic.Linarith

/-!
# Every stored fill is booked once

The filled quantity of an order is kept in three places: the fill rows, the cached object and
the order row. Between two events they agree, and every stored fill has reached the position
exactly once, in every run in which the state machine admits each fill when it is booked and
the bulk cancel writes no outdated copy.
-/

namespace FinDashboard.Core

open Async Broker Persistence Risk List

def filledOf (fills : List Fill) (clientOrderId : ClientOrderId) : ℚ :=
  ((fills.filter fun fill => fill.clientOrderId = clientOrderId).map (·.quantity)).sum

theorem filledOf_append (fills : List Fill) (fill : Fill) (clientOrderId : ClientOrderId) :
    filledOf (fills ++ [fill]) clientOrderId = filledOf fills clientOrderId +
      if fill.clientOrderId = clientOrderId then fill.quantity else 0 := by
  unfold filledOf
  rw [filter_append, map_append, sum_append]
  by_cases h : fill.clientOrderId = clientOrderId <;> simp [h]

variable {clientOrderId : ClientOrderId}

theorem filledOf_eq_zero {fills : List Fill} (h : ∀ fill ∈ fills, fill.clientOrderId ≠ clientOrderId) :
    filledOf fills clientOrderId = 0 := by
  unfold filledOf
  rw [filter_eq_nil_iff.mpr (by simpa using h)]
  rfl

/-- The broker executes what the order allows: a positive quantity on its side, no more than is
left of it, and a buy at no more than its limit. -/
def executionLegal : PointCondition
  | .addFill fill, _, s =>
      ∀ row ∈ s.orders, row.clientOrderId = fill.clientOrderId →
        0 < fill.quantity ∧ fill.side = row.side ∧ fill.symbol = row.symbol ∧
          filledOf s.fills row.clientOrderId + fill.quantity ≤ row.quantity ∧
          (row.side = .buy → row.orderType = .limit → fill.price ≤ row.price.getD 0)
  | _, _, _ => True

instance : ∀ point reply s, Decidable (executionLegal point reply s) := by
  intro point reply s
  apply Point.casesOn (motive := fun point => Decidable (executionLegal point reply s)) point <;>
    intros <;> (unfold executionLegal; infer_instance)

/-- What the fill rows, the cache, the order rows and the position agree on between events. -/
structure FillsBooked (s : Store) : Prop where
  cached : ∀ clientOrderId order, s.inflight clientOrderId = some order →
    order.filledQuantity = filledOf s.fills clientOrderId
  row : ∀ row ∈ s.orders, row.filledQuantity = filledOf s.fills row.clientOrderId
  applied : s.appliedFills = s.fills
  distinct : (s.fills.map (·.fillId)).Nodup

/-- The cache is keyed by the order ids and holds only orders that have a row. -/
structure CacheKeyed (s : Store) : Prop where
  id : ∀ clientOrderId order, s.inflight clientOrderId = some order →
    order.clientOrderId = clientOrderId
  row : ∀ clientOrderId, (s.inflight clientOrderId).isSome → (findOrder s clientOrderId).isSome

/-- The status machine admits each fill when it is booked, and the bulk cancel writes a copy only
while its filled quantity is that of the row. -/
def fillAdmitted : PointCondition
  | .bookFill clientOrderId fill, _, s =>
      ∀ order ∈ s.inflight clientOrderId, admitsFill fill order = true
  | .updateCopy copy, _, s =>
      ∀ row ∈ s.orders, row.clientOrderId = copy.clientOrderId →
        row.filledQuantity = copy.filledQuantity
  | _, _, _ => True

variable {order : Order}

namespace CacheKeyed

theorem ofCache {s : Store} (h : CacheKeyed s)
    (hid : order.clientOrderId = clientOrderId) (hrow : (findOrder s clientOrderId).isSome) :
    CacheKeyed (s.cache clientOrderId order) where
  id other order' h' := by
    by_cases heq : other = clientOrderId
    · subst heq
      simp only [inflight_cache, Function.update_self, Option.some.injEq] at h'
      rw [← h', hid]
    · exact h.id other order' (by simpa [heq] using h')
  row other h' := by
    by_cases heq : other = clientOrderId
    · rwa [heq]
    · exact h.row other (by simpa [heq] using h')

/-- A step that leaves the cache alone and drops no row. -/
theorem of_inflight_eq {s s' : Store} (h : CacheKeyed s) (hinflight : s'.inflight = s.inflight)
    (hrows : RowsPersist s s') : CacheKeyed s' where
  id clientOrderId order h' := h.id clientOrderId order (by rwa [← hinflight])
  row clientOrderId h' := hrows clientOrderId (h.row clientOrderId (by rwa [← hinflight]))

theorem ofRoutine {s s' : Store} (hroutine : Routine s s') (h : CacheKeyed s) : CacheKeyed s' := by
  induction hroutine with
  | other hinflight horders => exact h.of_inflight_eq hinflight (.of_orders_eq horders)
  | load _ hrow =>
    have hid := findOrder_clientOrderId hrow
    exact h.ofCache hid (by rw [hrow]; rfl)
  | @mutate s clientOrderId order order' hcached _ _ hsame =>
    have hid : order'.clientOrderId = order.clientOrderId := by rw [← hsame]
    exact h.ofCache (hid.trans (h.id _ _ hcached)) (h.row _ (by rw [hcached]; rfl))
  | persist => exact h.of_inflight_eq rfl (.ofPersist _ _)
  | trans _ _ ih ih' => exact ih' (ih h)

theorem ofStep {account : AccountId} {config : RiskConfig} {point : Point} {s s' : Store}
    (hstep : Step account config point s s') (h : CacheKeyed s) : CacheKeyed s' := by
  have hrows := hstep.rowsPersist
  unfold Step at hstep
  split at hstep
  · obtain rfl | ⟨-, -, rfl⟩ := hstep
    · exact h
    · exact h.of_inflight_eq rfl hrows
  · obtain ⟨-, hrow, rfl⟩ := hstep
    exact h.ofCache rfl hrow
  · obtain rfl | ⟨-, -, rfl⟩ := hstep
    · exact h
    · exact h.of_inflight_eq rfl hrows
  · obtain rfl | ⟨-, rfl⟩ := hstep
    · exact h
    · exact h.of_inflight_eq rfl hrows
  · rename_i clientOrderId fill
    obtain ⟨-, rfl⟩ | ⟨order, hcached, hbook⟩ := hstep
    · exact h
    · have hrow := h.row _ (by rw [hcached]; rfl)
      have hid := h.id _ _ hcached
      obtain ⟨-, rfl⟩ | ⟨-, rfl⟩ := hbook
      · have hcache : CacheKeyed (s.cache clientOrderId (executed fill order)) :=
          h.ofCache hid hrow
        exact hcache.of_inflight_eq rfl (.of_orders_eq rfl)
      · exact h.ofCache hid hrow
  · obtain ⟨position, rfl⟩ := hstep
    exact h.of_inflight_eq (inflight_upsertLocal position s) hrows
  · exact ofRoutine hstep h

end CacheKeyed

/-- Cached objects carry all booked fills; a row may lag behind by the fill being booked. -/
structure Tally (s : Store) : Prop where
  keyed : CacheKeyed s
  cached : ∀ clientOrderId order, s.inflight clientOrderId = some order →
    order.filledQuantity = filledOf s.bookedFills clientOrderId
  row : ∀ row ∈ s.orders, row.filledQuantity = filledOf s.bookedFills row.clientOrderId ∨
    ((s.inflight row.clientOrderId).isSome ∧
      row.filledQuantity = filledOf s.appliedFills row.clientOrderId)
  booked : ∀ fill ∈ s.bookedFills, fill ∈ s.fills

/-- The rows of an order carry all its booked fills. -/
def RowsBooked (clientOrderId : ClientOrderId) (s : Store) : Prop :=
  ∀ row ∈ s.orders, row.clientOrderId = clientOrderId →
    row.filledQuantity = filledOf s.bookedFills clientOrderId

theorem mem_persist {s : Store} {order row : Order} (h : row ∈ (persist s order).orders) :
    (row.clientOrderId ≠ order.clientOrderId ∧ row ∈ s.orders) ∨
      (row.clientOrderId = order.clientOrderId ∧
        ∃ old ∈ s.orders, old.clientOrderId = order.clientOrderId ∧ row = writeState order old) := by
  obtain ⟨old, hold, rfl⟩ := mem_map.mp h
  by_cases hid : old.clientOrderId = order.clientOrderId
  · refine .inr ⟨by simpa using hid, old, hold, hid, ?_⟩
    simp [updateRow, hid]
  · refine .inl ⟨by simpa using hid, ?_⟩
    simpa [updateRow, hid] using hold

namespace Tally

variable {s : Store}

/-- Caching an object that carries the booked fills. -/
theorem ofCache (h : Tally s)
    (hid : order.clientOrderId = clientOrderId) (hrow : (findOrder s clientOrderId).isSome)
    (hfilled : order.filledQuantity = filledOf s.bookedFills clientOrderId) :
    Tally (s.cache clientOrderId order) where
  keyed := h.keyed.ofCache hid hrow
  cached other order' h' := by
    by_cases heq : other = clientOrderId
    · subst heq
      simp only [inflight_cache, Function.update_self, Option.some.injEq] at h'
      rw [← h']
      exact hfilled
    · exact h.cached other order' (by simpa [heq] using h')
  row row hmem := (h.row row hmem).imp_right fun ⟨hcached, hlag⟩ =>
    ⟨ConsumerRely.cached_cache hcached, hlag⟩
  booked := h.booked

/-- Writing back an object that carries the booked fills. -/
theorem ofPersist (h : Tally s)
    (hfilled : order.filledQuantity = filledOf s.bookedFills order.clientOrderId) :
    Tally (persist s order) where
  keyed := h.keyed.of_inflight_eq rfl (.ofPersist _ _)
  cached := h.cached
  row row hmem := by
    obtain ⟨-, hold⟩ | ⟨hid, old, -, -, hwrite⟩ := mem_persist hmem
    · exact h.row row hold
    · left
      have hwritten : row.filledQuantity = order.filledQuantity := by rw [hwrite]; rfl
      rw [hwritten, hid]
      exact hfilled
  booked := h.booked

theorem ofPersistCopy (h : Tally s) {copy : Order}
    (hcopy : ∀ row ∈ s.orders, row.clientOrderId = copy.clientOrderId →
      row.filledQuantity = copy.filledQuantity) : Tally (persist s copy) where
  keyed := h.keyed.of_inflight_eq rfl (.ofPersist _ _)
  cached := h.cached
  row row hmem := by
    obtain ⟨-, hold⟩ | ⟨hid, old, hold, holdid, hwrite⟩ := mem_persist hmem
    · exact h.row row hold
    · have hsame : row.filledQuantity = old.filledQuantity := by
        rw [hwrite, hcopy old hold holdid]
        rfl
      rw [hsame, hid, ← holdid]
      exact h.row old hold
  booked := h.booked

theorem ofRoutine {s s' : Store} (hroutine : Routine s s') (h : Tally s) : Tally s' := by
  induction hroutine with
  | other hinflight horders hfills hbooked happlied =>
    refine ⟨h.keyed.of_inflight_eq hinflight (.of_orders_eq horders), ?_, ?_, ?_⟩
    · rw [hinflight, hbooked]; exact h.cached
    · rw [horders, hinflight, hbooked, happlied]; exact h.row
    · rw [hbooked, hfills]; exact h.booked
  | @load s clientOrderId row huncached hrow =>
    have hid := findOrder_clientOrderId hrow
    refine h.ofCache hid (by rw [hrow]; rfl) ?_
    obtain hfilled | ⟨hcached, -⟩ := h.row row (findOrder_mem hrow)
    · rwa [hid] at hfilled
    · rw [hid, huncached] at hcached
      cases hcached
  | @mutate s clientOrderId order order' hcached _ _ hsame =>
    have hid : order'.clientOrderId = order.clientOrderId := by rw [← hsame]
    have hfilled : order'.filledQuantity = order.filledQuantity := by rw [← hsame]
    refine h.ofCache (hid.trans (h.keyed.id _ _ hcached)) (h.keyed.row _ (by rw [hcached]; rfl)) ?_
    rw [hfilled]
    exact h.cached _ _ hcached
  | persist hcached _ =>
    refine h.ofPersist ?_
    rw [h.keyed.id _ _ hcached]
    exact h.cached _ _ hcached
  | trans _ _ ih ih' => exact ih' (ih h)

theorem ofStep {account : AccountId} {config : RiskConfig} {point : Point} {reply : Reply}
    {s s' : Store} (hlegal : brokerLegal point reply s) (hok : fillAdmitted point reply s)
    (hpoint : point.ofCall) (hstep : Step account config point s s') (h : Tally s) : Tally s' := by
  have hfresh : ∀ {order : Order}, IsPlaced account config order →
      (∀ fill ∈ s.fills, fill.clientOrderId ≠ order.clientOrderId) →
      order.filledQuantity = filledOf s.bookedFills order.clientOrderId := by
    rintro _ ⟨request, clientOrderId, level, rfl, -⟩ hnone
    rw [filledOf_eq_zero fun fill hfill => hnone fill (h.booked fill hfill)]
    rfl
  unfold Step at hstep
  split at hstep
  · obtain rfl | ⟨hplaced, -, rfl⟩ := hstep
    · exact h
    · refine ⟨h.keyed.of_inflight_eq rfl (.ofInsertOrder _ _), h.cached, fun row hmem => ?_, h.booked⟩
      rcases mem_append.mp hmem with hold | hnew
      · exact h.row row hold
      · obtain rfl := mem_singleton.mp hnew
        exact .inl (hfresh hplaced hlegal)
  · obtain ⟨hplaced, hrow, rfl⟩ := hstep
    have hfilled := hfresh hplaced hlegal.1
    exact h.ofCache rfl hrow hfilled
  · obtain rfl | ⟨-, -, rfl⟩ := hstep
    · exact h
    · exact h.ofPersistCopy hok
  · exact hpoint.elim
  · exact hpoint.elim
  · exact hpoint.elim
  · exact ofRoutine hstep h

end Tally

end FinDashboard.Core
