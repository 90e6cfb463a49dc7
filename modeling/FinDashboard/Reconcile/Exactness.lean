import FinDashboard.Reconcile.Engine
import Mathlib.Data.List.Induction
import Mathlib.Data.List.Nodup
import Mathlib.Algebra.Order.Ring.Abs
import Mathlib.Tactic.Linarith

/-!
# What a passed reconciliation says

A passed reconciliation should mean that both sides agree, position by position. The engine collects
the broker's positions by symbol code, so of two sides of one symbol only the last is compared.
-/

namespace FinDashboard.Reconcile

open Async Core Persistence List

section Dictionaries

variable {α : Type} {key : α → String} {rows : List α} {code : String} {row value : α}
  {entries : List (String × α)} {entry : String × α}

def lastWith (key : α → String) (code : String) (rows : List α) : Option α :=
  rows.reverse.find? fun row => key row = code

theorem lastWith_append (rows : List α) (row : α) : lastWith key code (rows ++ [row]) =
    if key row = code then some row else lastWith key code rows := by
  unfold lastWith
  rw [reverse_append, reverse_singleton, singleton_append, find?_cons]
  by_cases same : key row = code <;> simp [same]

theorem mem_of_lastWith (last : lastWith key code rows = some row) : row ∈ rows ∧ key row = code :=
  ⟨mem_reverse.mp (mem_of_find?_eq_some last), by simpa using find?_some last⟩

theorem lastWith_eq_none : lastWith key code rows = none ↔ ∀ row ∈ rows, key row ≠ code := by
  simp [lastWith]

/-- Where the keys are distinct, a row is the last with its key. -/
theorem lastWith_of_mem (apart : (rows.map key).Nodup) (member : row ∈ rows) :
    lastWith key (key row) rows = some row := by
  cases last : lastWith key (key row) rows with
  | none => exact absurd rfl (lastWith_eq_none.mp last row member)
  | some found =>
    obtain ⟨there, same⟩ := mem_of_lastWith last
    rw [inj_on_of_nodup_map apart there member same]

theorem lookup_cons_ite (first : String × α) (rest : List (String × α)) (code : String) :
    (first :: rest).lookup code = if first.1 = code then some first.2 else rest.lookup code := by
  rw [lookup_cons]
  by_cases same : first.1 = code
  · simp [same]
  · have other : (code == first.1) = false := by simpa using Ne.symm same
    rw [other, if_neg same]

def replaceEntry (added : String) (value : α) (entry : String × α) : String × α :=
  if entry.1 = added then (added, value) else entry

theorem lookup_replace (entries : List (String × α)) (added : String) (value : α)
    (code : String) : (entries.map (replaceEntry added value)).lookup code =
      if added = code then (entries.lookup code).map fun _ => value else entries.lookup code := by
  induction entries with
  | nil => simp
  | cons first rest ih =>
    rw [map_cons, lookup_cons_ite, lookup_cons_ite, ih]
    unfold replaceEntry
    by_cases here : first.1 = added
    · by_cases same : added = code
      · simp [here, same]
      · simp [here, same]
    · by_cases same : added = code
      · subst same
        simp [here]
      · simp [here, same]

theorem lookup_setEntry (entries : List (String × α)) (added : String) (value : α) (code : String) :
    (setEntry entries added value).lookup code =
      if added = code then some value else entries.lookup code := by
  unfold setEntry
  by_cases present : entries.any fun entry => entry.1 = added
  · rw [if_pos present]
    have replaced := lookup_replace entries added value code
    unfold replaceEntry at replaced
    rw [replaced]
    by_cases same : added = code
    · rw [if_pos same, if_pos same]
      cases found : entries.lookup code with
      | some _ => rfl
      | none =>
        obtain ⟨entry, member, carries⟩ := any_eq_true.mp present
        have absent := lookup_eq_none_iff.mp found entry member
        simp_all
    · rw [if_neg same, if_neg same]
  · rw [if_neg present, lookup_append]
    have absent : entries.lookup added = none := by
      refine lookup_eq_none_iff.mpr fun entry member => ?_
      have other : entry.1 ≠ added := fun same =>
        present (any_eq_true.mpr ⟨entry, member, by simpa using same⟩)
      simpa using Ne.symm other
    rw [lookup_cons_ite, lookup_nil]
    by_cases same : added = code
    · subst same
      simp [absent]
    · simp [same]

theorem mem_setEntry {added : String} : entry ∈ setEntry entries added value ↔
      entry = (added, value) ∨ entry ∈ entries ∧ entry.1 ≠ added := by
  unfold setEntry
  by_cases present : entries.any fun entry => entry.1 = added
  · rw [if_pos present, mem_map]
    obtain ⟨old, oldMember, carries⟩ := any_eq_true.mp present
    constructor
    · rintro ⟨before, member, rfl⟩
      split_ifs with same
      · exact Or.inl rfl
      · exact Or.inr ⟨member, same⟩
    · rintro (rfl | ⟨member, other⟩)
      · exact ⟨old, oldMember, if_pos (by simpa using carries)⟩
      · exact ⟨entry, member, if_neg other⟩
  · rw [if_neg present, mem_append, mem_singleton]
    have absent : entry ∈ entries → entry.1 ≠ added := fun member same =>
      present (any_eq_true.mpr ⟨entry, member, by simpa using same⟩)
    tauto

theorem dictOf_append (rows : List α) (row : α) :
    dictOf key (rows ++ [row]) = setEntry (dictOf key rows) (key row) row := by
  rw [dictOf, foldl_append]
  rfl

theorem lookup_dictOf (key : α → String) (rows : List α) (code : String) :
    (dictOf key rows).lookup code = lastWith key code rows := by
  induction rows using reverseRecOn with
  | nil => rfl
  | append_singleton rows row ih =>
    rw [dictOf_append, lookup_setEntry, lastWith_append, ih]

theorem mem_dictOf : entry ∈ dictOf key rows ↔ lastWith key entry.1 rows = some entry.2 := by
  induction rows using reverseRecOn with
  | nil => simp [dictOf, lastWith]
  | append_singleton rows row ih =>
    rw [dictOf_append, mem_setEntry, lastWith_append, ih]
    by_cases same : key row = entry.1
    · rw [if_pos same, ← same]
      simp [Prod.ext_iff, eq_comm, same]
    · rw [if_neg same]
      have other : entry ≠ (key row, row) := fun equal => same (by rw [equal])
      simp [other, Ne.symm same]

theorem mem_keys_dictOf : code ∈ (dictOf key rows).map (·.1) ↔ ∃ row ∈ rows, key row = code := by
  constructor
  · intro listed
    obtain ⟨entry, member, rfl⟩ := mem_map.mp listed
    exact ⟨entry.2, mem_of_lastWith (mem_dictOf.mp member)⟩
  · rintro ⟨row, member, same⟩
    cases last : lastWith key code rows with
    | none => exact absurd same (lastWith_eq_none.mp last row member)
    | some found => exact mem_map.mpr ⟨(code, found), mem_dictOf.mpr last, rfl⟩

end Dictionaries

section Orders

variable {localOrders brokerOrders : List Order}

/-- The broker's orders that carry an id of ours. -/
def identified (orders : List Order) : List Order :=
  orders.filter fun order => !order.clientOrderId.isEmpty

/-- The same active order ids on both sides, and for each id the same status and filled quantity. -/
structure OrdersAgree (localOrders brokerOrders : List Order) : Prop where
  ids : ∀ id, id ∈ localOrders.map (·.clientOrderId) ↔
    id ∈ (identified brokerOrders).map (·.clientOrderId)
  states : ∀ localOrder ∈ localOrders, ∀ brokerOrder ∈ identified brokerOrders,
    localOrder.clientOrderId = brokerOrder.clientOrderId →
      localOrder.status = brokerOrder.status ∧
        |localOrder.filledQuantity - brokerOrder.filledQuantity| ≤ positionTolerance

theorem orderMismatch?_eq_none (localOrder brokerOrder : Order) :
    orderMismatch? localOrder brokerOrder = none ↔ localOrder.status = brokerOrder.status ∧
      |localOrder.filledQuantity - brokerOrder.filledQuantity| ≤ positionTolerance := by
  unfold orderMismatch?
  rw [ite_eq_right_iff]
  simp only [reduceCtorEq, imp_false, not_or, not_not, not_lt]

theorem ok_reconcileOrders (apart : ((identified brokerOrders).map (·.clientOrderId)).Nodup) :
    (reconcileOrders localOrders brokerOrders {}).ok = true ↔ OrdersAgree localOrders brokerOrders := by
  have known : ∀ brokerOrder ∈ identified brokerOrders,
      lastWith (·.clientOrderId) brokerOrder.clientOrderId (identified brokerOrders) =
        some brokerOrder := fun _ member => lastWith_of_mem apart member
  have collected : (brokerOrders.filter fun order => !order.clientOrderId.isEmpty) =
      identified brokerOrders := rfl
  rw [ok_iff]
  simp only [reconcileOrders, nil_append, filterMap_eq_nil_iff, filter_eq_nil_iff,
    true_and, lookup_dictOf, Option.isNone_iff_eq_none, decide_eq_true_eq, not_not, collected]
  constructor
  · rintro ⟨mismatches, localOnly, brokerOnly⟩
    constructor
    · intro id
      constructor
      · intro listed
        obtain ⟨found, last⟩ := Option.ne_none_iff_exists'.mp (localOnly id listed)
        obtain ⟨member, rfl⟩ := mem_of_lastWith last
        exact mem_map_of_mem member
      · intro listed
        exact brokerOnly id (mem_keys_dictOf.mpr (mem_map.mp listed))
    · intro localOrder member brokerOrder there same
      have compared := mismatches localOrder member
      rw [same, known brokerOrder there, Option.bind_some] at compared
      exact (orderMismatch?_eq_none localOrder brokerOrder).mp compared
  · intro agree
    refine ⟨fun localOrder member => ?_, fun id listed => ?_, fun id listed => ?_⟩
    · have listed := (agree.ids _).mp (mem_map_of_mem member)
      obtain ⟨brokerOrder, there, same⟩ := mem_map.mp listed
      rw [← same, known brokerOrder there, Option.bind_some]
      exact (orderMismatch?_eq_none localOrder brokerOrder).mpr
        (agree.states localOrder member brokerOrder there same.symm)
    · obtain ⟨brokerOrder, there, rfl⟩ := mem_map.mp ((agree.ids id).mp listed)
      rw [known brokerOrder there]
      exact Option.some_ne_none brokerOrder
    · exact (agree.ids id).mpr (mem_map.mpr (mem_keys_dictOf.mp listed))

end Orders

variable {positions : List Position}

section Positions

variable {localPositions brokerPositions : List Position}

def positionKey (position : Position) : String × PositionSide :=
  (position.symbol.code, position.positionSide)

/-- The quantity of a position; none is a quantity of zero. -/
def totalAt (key : String × PositionSide) (positions : List Position) : ℚ :=
  ((positions.find? fun position => positionKey position = key).map (·.totalQuantity)).getD 0

/-- The same quantity in every symbol and on every side, and the same average price where both
sides have a record. -/
structure PositionsAgree (localPositions brokerPositions : List Position) : Prop where
  totals : ∀ key, |totalAt key localPositions - totalAt key brokerPositions| ≤ positionTolerance
  prices : ∀ localPosition ∈ localPositions, ∀ brokerPosition ∈ brokerPositions,
    positionKey localPosition = positionKey brokerPosition →
      |localPosition.averagePrice - brokerPosition.averagePrice| ≤ positionTolerance

/-- A symbol the broker lists has positions on one side only. -/
def OneSided (localPositions brokerPositions : List Position) : Prop :=
  ∀ brokerPosition ∈ brokerPositions, ∀ position ∈ localPositions ++ brokerPositions,
    position.symbol.code = brokerPosition.symbol.code →
      position.positionSide = brokerPosition.positionSide

instance (localPositions brokerPositions : List Position) :
    Decidable (OneSided localPositions brokerPositions) := by
  unfold OneSided
  infer_instance

/-- What the engine compares a local position with. -/
structure PassesByCode (localPositions brokerPositions : List Position) : Prop where
  compared : ∀ localPosition ∈ localPositions, ∀ brokerPosition,
    lastWith (·.symbol.code) localPosition.symbol.code brokerPositions = some brokerPosition →
      |localPosition.totalQuantity - brokerPosition.totalQuantity| ≤ positionTolerance ∧
        |localPosition.averagePrice - brokerPosition.averagePrice| ≤ positionTolerance
  localOnly : ∀ localPosition ∈ localPositions,
    lastWith (·.symbol.code) localPosition.symbol.code brokerPositions = none →
      |localPosition.totalQuantity| ≤ positionTolerance
  brokerOnly : ∀ code brokerPosition,
    lastWith (·.symbol.code) code brokerPositions = some brokerPosition →
      code ∉ localPositions.map (·.symbol.code) →
        |brokerPosition.totalQuantity| ≤ positionTolerance

theorem localPositionMismatch?_eq_none (localPosition : Position) (found : Option Position) :
    localPositionMismatch? localPosition found = none ↔
      (found = none → |localPosition.totalQuantity| ≤ positionTolerance) ∧
        ∀ brokerPosition, found = some brokerPosition →
          |localPosition.totalQuantity - brokerPosition.totalQuantity| ≤ positionTolerance ∧
            |localPosition.averagePrice - brokerPosition.averagePrice| ≤ positionTolerance := by
  cases found with
  | none => simp [localPositionMismatch?]
  | some brokerPosition => simp [localPositionMismatch?]

theorem ok_reconcilePositions_iff : (reconcilePositions localPositions brokerPositions {}).ok = true ↔
      PassesByCode localPositions brokerPositions := by
  rw [ok_iff]
  simp only [reconcilePositions, nil_append, append_eq_nil_iff, and_true, true_and,
    filterMap_eq_nil_iff, lookup_dictOf, localPositionMismatch?_eq_none]
  constructor
  · rintro ⟨locals, brokers⟩
    refine ⟨fun localPosition member brokerPosition last => ?_, fun localPosition member last => ?_,
      fun code brokerPosition last fresh => ?_⟩
    · exact (locals localPosition member).2 brokerPosition last
    · exact (locals localPosition member).1 last
    · have unmatched := brokers (code, brokerPosition)
        (mem_filter.mpr ⟨mem_dictOf.mpr last, by simpa using fresh⟩)
      simpa [brokerPositionMismatch?] using unmatched
  · intro passes
    refine ⟨fun localPosition member =>
      ⟨passes.localOnly localPosition member, passes.compared localPosition member⟩, ?_⟩
    intro entry listed
    obtain ⟨member, fresh⟩ := mem_filter.mp listed
    have small := passes.brokerOnly entry.1 entry.2 (mem_dictOf.mp member) (by simpa using fresh)
    simpa [brokerPositionMismatch?] using small

theorem totalAt_of_mem (apart : (positions.map positionKey).Nodup)
    {position : Position} (member : position ∈ positions) :
    totalAt (positionKey position) positions = position.totalQuantity := by
  unfold totalAt
  cases found : positions.find? fun other => positionKey other = positionKey position with
  | none =>
    have absent := find?_eq_none.mp found position member
    simp at absent
  | some other =>
    have same := inj_on_of_nodup_map apart
      (mem_of_find?_eq_some found) member (by simpa using find?_some found)
    rw [same]
    rfl

theorem totalAt_of_absent {key : String × PositionSide}
    (absent : key ∉ positions.map positionKey) : totalAt key positions = 0 := by
  have none : (positions.find? fun position => positionKey position = key) = none := by
    refine find?_eq_none.mpr fun position member same => absent ?_
    exact mem_map.mpr ⟨position, member, by simpa using same⟩
  rw [totalAt, none]
  rfl

theorem OneSided.last (oneSided : OneSided localPositions brokerPositions)
    (apart : (brokerPositions.map positionKey).Nodup) {brokerPosition : Position}
    (member : brokerPosition ∈ brokerPositions) :
    lastWith (·.symbol.code) brokerPosition.symbol.code brokerPositions = some brokerPosition := by
  cases last : lastWith (fun p : Position => p.symbol.code) brokerPosition.symbol.code
      brokerPositions with
  | none => exact absurd rfl (lastWith_eq_none.mp last brokerPosition member)
  | some found =>
    obtain ⟨there, same⟩ := mem_of_lastWith last
    have side := oneSided brokerPosition member found (mem_append_right _ there) same
    rw [inj_on_of_nodup_map apart there member (Prod.ext same side)]

/-- The comparison by code is the comparison by symbol and side. -/
theorem passesByCode_iff (oneSided : OneSided localPositions brokerPositions)
    (localApart : (localPositions.map positionKey).Nodup)
    (brokerApart : (brokerPositions.map positionKey).Nodup) :
    PassesByCode localPositions brokerPositions ↔ PositionsAgree localPositions brokerPositions := by
  constructor
  · intro passes
    have matched : ∀ localPosition ∈ localPositions, ∀ brokerPosition ∈ brokerPositions,
        localPosition.symbol.code = brokerPosition.symbol.code →
          |localPosition.totalQuantity - brokerPosition.totalQuantity| ≤ positionTolerance ∧
            |localPosition.averagePrice - brokerPosition.averagePrice| ≤ positionTolerance := by
      intro localPosition member brokerPosition there same
      refine passes.compared localPosition member brokerPosition ?_
      rw [same]
      exact oneSided.last brokerApart there
    constructor
    · intro key
      by_cases hasLocal : key ∈ localPositions.map positionKey
      · obtain ⟨localPosition, member, rfl⟩ := mem_map.mp hasLocal
        rw [totalAt_of_mem localApart member]
        by_cases hasBroker : positionKey localPosition ∈ brokerPositions.map positionKey
        · obtain ⟨brokerPosition, there, same⟩ := mem_map.mp hasBroker
          rw [← same, totalAt_of_mem brokerApart there]
          exact (matched localPosition member brokerPosition there (Prod.ext_iff.mp same).1.symm).1
        · rw [totalAt_of_absent hasBroker, sub_zero]
          refine passes.localOnly localPosition member (lastWith_eq_none.mpr ?_)
          intro brokerPosition there code
          have side := oneSided brokerPosition there localPosition
            (mem_append_left _ member) code.symm
          exact hasBroker (mem_map.mpr ⟨brokerPosition, there, Prod.ext code side.symm⟩)
      · rw [totalAt_of_absent hasLocal, zero_sub, abs_neg]
        by_cases hasBroker : key ∈ brokerPositions.map positionKey
        · obtain ⟨brokerPosition, there, rfl⟩ := mem_map.mp hasBroker
          rw [totalAt_of_mem brokerApart there]
          refine passes.brokerOnly _ brokerPosition (oneSided.last brokerApart there) ?_
          intro listed
          obtain ⟨localPosition, member, code⟩ := mem_map.mp listed
          have side := oneSided brokerPosition there localPosition
            (mem_append_left _ member) code
          exact hasLocal (mem_map.mpr ⟨localPosition, member, Prod.ext code side⟩)
        · rw [totalAt_of_absent hasBroker, abs_zero]
          decide +kernel
    · intro localPosition member brokerPosition there same
      exact (matched localPosition member brokerPosition there (Prod.ext_iff.mp same).1).2
  · intro agree
    refine ⟨fun localPosition member brokerPosition last => ?_, fun localPosition member last => ?_,
      fun code brokerPosition last fresh => ?_⟩
    · obtain ⟨there, code⟩ := mem_of_lastWith last
      have side := oneSided brokerPosition there localPosition
        (mem_append_left _ member) code.symm
      have same : positionKey localPosition = positionKey brokerPosition :=
        Prod.ext code.symm side
      have total := agree.totals (positionKey localPosition)
      rw [totalAt_of_mem localApart member, same, totalAt_of_mem brokerApart there] at total
      exact ⟨total, agree.prices localPosition member brokerPosition there same⟩
    · have total := agree.totals (positionKey localPosition)
      rw [totalAt_of_mem localApart member, totalAt_of_absent, sub_zero] at total
      · exact total
      · intro listed
        obtain ⟨brokerPosition, there, same⟩ := mem_map.mp listed
        exact lastWith_eq_none.mp last brokerPosition there (Prod.ext_iff.mp same).1
    · obtain ⟨there, rfl⟩ := mem_of_lastWith last
      have total := agree.totals (positionKey brokerPosition)
      rw [totalAt_of_mem brokerApart there, totalAt_of_absent, zero_sub, abs_neg] at total
      · exact total
      · intro listed
        obtain ⟨localPosition, member, same⟩ := mem_map.mp listed
        exact fresh (mem_map.mpr ⟨localPosition, member, (Prod.ext_iff.mp same).1⟩)

end Positions

section Runs

variable {account : AccountId} {s : Store}

/-- A state of the broker: an order id is used once, and so is a side of a symbol. -/
structure BrokerState where
  orders : List Order
  positions : List Position
  account : Account
  orders_apart : ((identified orders).map (·.clientOrderId)).Nodup
  positions_apart : (positions.map positionKey).Nodup

def BrokerState.snapshot (broker : BrokerState) : BrokerSnapshot where
  activeOrders := .ok broker.orders
  positions := .ok broker.positions
  account := .ok broker.account

/-- Both sides agree. -/
structure Agrees (s : Store) (account : AccountId) (broker : BrokerState) : Prop where
  orders : OrdersAgree (listActive s account) broker.orders
  positions : PositionsAgree (listLocal s account) broker.positions
  account : ∀ localAccount ∈ s.accounts account, AccountAgrees localAccount broker.account

/-- A run passes exactly when both sides agree. -/
def Exact (s : Store) (account : AccountId) (broker : BrokerState) : Prop :=
  ∃ report, ((reconcile account broker.snapshot).exec s).1 = .ok report ∧
    (report.ok = true ↔ Agrees s account broker)

/-- The same positions are listed, with any quantities and prices. -/
def SameShape (positions others : List Position) : Prop :=
  others.map positionKey = positions.map positionKey

theorem ok_reconcile (s : Store) (account : AccountId) (broker : BrokerState) :
    ∃ report, ((reconcile account broker.snapshot).exec s).1 = .ok report ∧
      (report.ok = true ↔ OrdersAgree (listActive s account) broker.orders ∧
        PassesByCode (listLocal s account) broker.positions ∧
        ∀ localAccount ∈ s.accounts account, AccountAgrees localAccount broker.account) := by
  refine ⟨_, exec_reconcile s account rfl rfl rfl, ?_⟩
  rw [ok_reportOn, ok_reconcileOrders broker.orders_apart, ok_reconcilePositions_iff]

theorem exact_of_oneSided (apart : ((listLocal s account).map positionKey).Nodup) {broker : BrokerState}
    (oneSided : OneSided (listLocal s account) broker.positions) : Exact s account broker := by
  obtain ⟨report, ran, ok⟩ := ok_reconcile s account broker
  refine ⟨report, ran, ok.trans ?_⟩
  rw [passesByCode_iff oneSided apart broker.positions_apart]
  exact ⟨fun ⟨orders, positions, account⟩ => ⟨orders, positions, account⟩,
    fun agrees => ⟨agrees.orders, agrees.positions, agrees.account⟩⟩

theorem OneSided.sameShape {localPositions brokerPositions others brokers : List Position}
    (oneSided : OneSided localPositions brokerPositions) (locals : SameShape localPositions others)
    (sides : SameShape brokerPositions brokers) : OneSided others brokers := by
  have keys : (others ++ brokers).map positionKey =
      (localPositions ++ brokerPositions).map positionKey := by
    rw [map_append, map_append, locals, sides]
  intro brokerPosition member position there code
  have listed := sides ▸ mem_map_of_mem member
  have paired := keys ▸ mem_map_of_mem there
  obtain ⟨brokerOld, memberOld, sameBroker⟩ := mem_map.mp listed
  obtain ⟨old, thereOld, same⟩ := mem_map.mp paired
  obtain ⟨brokerCode, brokerSide⟩ := Prod.ext_iff.mp sameBroker
  obtain ⟨oldCode, oldSide⟩ := Prod.ext_iff.mp same
  have side := oneSided brokerOld memberOld old thereOld
    (oldCode.trans (code.trans brokerCode.symm))
  exact oldSide.symm.trans (side.trans brokerSide)

/-- The positions with given quantities, and no prices. -/
def withTotals (total : String × PositionSide → ℚ) (positions : List Position) : List Position :=
  positions.map fun position =>
    { position with totalQuantity := total (positionKey position), averagePrice := 0 }

variable (total : String × PositionSide → ℚ)

theorem withTotals_sameShape (positions : List Position) :
    SameShape positions (withTotals total positions) := by
  unfold SameShape withTotals
  rw [map_map]
  rfl

theorem mem_withTotals {total : String × PositionSide → ℚ}
    {position : Position} (member : position ∈ withTotals total positions) :
    position.totalQuantity = total (positionKey position) ∧ position.averagePrice = 0 := by
  obtain ⟨old, _, rfl⟩ := mem_map.mp member
  exact ⟨rfl, rfl⟩

theorem totalAt_withTotals {total : String × PositionSide → ℚ}
    (apart : (positions.map positionKey).Nodup) {key : String × PositionSide}
    (listed : key ∈ positions.map positionKey) : totalAt key (withTotals total positions) =
      total key := by
  have shape := withTotals_sameShape total positions
  obtain ⟨position, member, rfl⟩ := mem_map.mp (shape ▸ listed)
  rw [totalAt_of_mem (shape ▸ apart) member, (mem_withTotals member).1]

theorem lastWith_withTotals (positions : List Position)
    (code : String) : lastWith (·.symbol.code) code (withTotals total positions) =
      (lastWith (·.symbol.code) code positions).map fun position =>
        { position with totalQuantity := total (positionKey position), averagePrice := 0 } := by
  rw [lastWith, withTotals, ← map_reverse, find?_map]
  rfl

theorem positionTolerance_nonneg : 0 ≤ positionTolerance := by decide +kernel

theorem positionTolerance_lt_one : positionTolerance < 1 := by decide +kernel

theorem exists_hidden {localPositions brokerPositions : List Position} {last : Position}
    (localApart : (localPositions.map positionKey).Nodup)
    (brokerApart : (brokerPositions.map positionKey).Nodup) {key : String × PositionSide}
    (final : lastWith (·.symbol.code) key.1 brokerPositions = some last)
    (side : key.2 ≠ last.positionSide) (listed : key ∈ brokerPositions.map positionKey) :
    ∃ f g, PassesByCode (withTotals f localPositions) (withTotals g brokerPositions) ∧
      ¬ PositionsAgree (withTotals f localPositions) (withTotals g brokerPositions) := by
  let g : String × PositionSide → ℚ := fun other => if other = key then 1 else 0
  have unseen : ∀ code position, lastWith (·.symbol.code) code (withTotals g brokerPositions) =
      some position → position.totalQuantity = 0 ∧ position.averagePrice = 0 := by
    intro code position found
    have code_eq := (mem_of_lastWith found).2
    obtain ⟨old, oldFound, rfl⟩ := Option.map_eq_some_iff.mp
      (lastWith_withTotals g brokerPositions code ▸ found)
    refine ⟨if_neg fun same => side ?_, rfl⟩
    have sameCode := code_eq.symm.trans (Prod.ext_iff.mp same).1
    rw [sameCode, final] at oldFound
    cases oldFound
    exact (Prod.ext_iff.mp same).2.symm
  refine ⟨fun _ => 0, g, ⟨?_, ?_, ?_⟩, ?_⟩
  · intro localPosition member brokerPosition found
    obtain ⟨total, price⟩ := mem_withTotals member
    obtain ⟨brokerTotal, brokerPrice⟩ := unseen _ _ found
    rw [total, price, brokerTotal, brokerPrice, sub_self, abs_zero]
    exact ⟨positionTolerance_nonneg, positionTolerance_nonneg⟩
  · intro localPosition member _
    rw [(mem_withTotals member).1, abs_zero]
    exact positionTolerance_nonneg
  · intro code brokerPosition found _
    rw [(unseen _ _ found).1, abs_zero]
    exact positionTolerance_nonneg
  · intro agree
    have total := agree.totals key
    have localTotal : totalAt key (withTotals (fun _ => 0) localPositions) = 0 := by
      by_cases here : key ∈ localPositions.map positionKey
      · exact totalAt_withTotals localApart here
      · refine totalAt_of_absent ?_
        rwa [withTotals_sameShape]
    have brokerTotal : totalAt key (withTotals g brokerPositions) = 1 :=
      (totalAt_withTotals brokerApart listed).trans (if_pos rfl)
    rw [localTotal, brokerTotal, zero_sub, abs_neg, abs_one] at total
    exact absurd total (not_le.mpr positionTolerance_lt_one)

theorem exists_mistaken {localPositions brokerPositions : List Position} {last : Position}
    (localApart : (localPositions.map positionKey).Nodup) {key : String × PositionSide}
    (final : lastWith (·.symbol.code) key.1 brokerPositions = some last)
    (listed : key ∈ localPositions.map positionKey) (absent : key ∉ brokerPositions.map positionKey) :
    ∃ f g, PassesByCode (withTotals f localPositions) (withTotals g brokerPositions) ∧
      ¬ PositionsAgree (withTotals f localPositions) (withTotals g brokerPositions) := by
  let f : String × PositionSide → ℚ := fun other => if other.1 = key.1 then 1 else 0
  refine ⟨f, f, ⟨?_, ?_, ?_⟩, ?_⟩
  · intro localPosition member brokerPosition found
    obtain ⟨there, code⟩ := mem_of_lastWith found
    obtain ⟨total, price⟩ := mem_withTotals member
    obtain ⟨brokerTotal, brokerPrice⟩ := mem_withTotals there
    have same : f (positionKey localPosition) = f (positionKey brokerPosition) := by
      simp only [f, positionKey, code]
    rw [total, price, brokerTotal, brokerPrice, same, sub_self, sub_self, abs_zero]
    exact ⟨positionTolerance_nonneg, positionTolerance_nonneg⟩
  · intro localPosition member none
    have other : localPosition.symbol.code ≠ key.1 := by
      intro same
      rw [same, lastWith_withTotals, final] at none
      cases none
    have zero : f (positionKey localPosition) = 0 := if_neg other
    rw [(mem_withTotals member).1, zero, abs_zero]
    exact positionTolerance_nonneg
  · intro code brokerPosition found fresh
    obtain ⟨there, same⟩ := mem_of_lastWith found
    have other : brokerPosition.symbol.code ≠ key.1 := by
      intro carries
      have codes : (withTotals f localPositions).map (·.symbol.code) =
          localPositions.map (·.symbol.code) := by
        rw [withTotals, map_map]
        rfl
      obtain ⟨localPosition, member, rfl⟩ := mem_map.mp listed
      refine fresh (codes ▸ mem_map.mpr ⟨localPosition, member, ?_⟩)
      exact carries.symm.trans same
    have zero : f (positionKey brokerPosition) = 0 := if_neg other
    rw [(mem_withTotals there).1, zero, abs_zero]
    exact positionTolerance_nonneg
  · intro agree
    have total := agree.totals key
    have localTotal : totalAt key (withTotals f localPositions) = 1 :=
      (totalAt_withTotals localApart listed).trans (if_pos rfl)
    have brokerTotal : totalAt key (withTotals f brokerPositions) = 0 := by
      refine totalAt_of_absent ?_
      rwa [withTotals_sameShape]
    rw [localTotal, brokerTotal, sub_zero, abs_one] at total
    exact absurd total (not_le.mpr positionTolerance_lt_one)

/-- A symbol with two sides passes with quantities that differ. -/
theorem exists_missed {localPositions brokerPositions : List Position}
    (localApart : (localPositions.map positionKey).Nodup)
    (brokerApart : (brokerPositions.map positionKey).Nodup)
    (twoSided : ¬ OneSided localPositions brokerPositions) :
    ∃ f g, PassesByCode (withTotals f localPositions) (withTotals g brokerPositions) ∧
      ¬ PositionsAgree (withTotals f localPositions) (withTotals g brokerPositions) := by
  unfold OneSided at twoSided
  push Not at twoSided
  obtain ⟨brokerPosition, member, position, there, code, side⟩ := twoSided
  cases final : lastWith (fun p : Position => p.symbol.code) brokerPosition.symbol.code
      brokerPositions with
  | none => exact absurd rfl (lastWith_eq_none.mp final brokerPosition member)
  | some last =>
    -- One of the two is not on the side of the last position.
    obtain ⟨other, otherThere, otherCode, otherSide⟩ : ∃ other ∈ localPositions ++ brokerPositions,
        other.symbol.code = brokerPosition.symbol.code ∧
          other.positionSide ≠ last.positionSide := by
      by_cases behind : brokerPosition.positionSide = last.positionSide
      · exact ⟨position, there, code, behind ▸ side⟩
      · exact ⟨brokerPosition, mem_append_right _ member, rfl, behind⟩
    have final' : lastWith (·.symbol.code) (positionKey other).1 brokerPositions = some last := by
      rw [positionKey, otherCode]
      exact final
    by_cases listed : positionKey other ∈ brokerPositions.map positionKey
    · exact exists_hidden localApart brokerApart final' otherSide listed
    · obtain here | here := mem_append.mp otherThere
      · exact exists_mistaken localApart final' (mem_map_of_mem here) listed
      · exact absurd (mem_map_of_mem here) listed

theorem ordersAgree_nil : OrdersAgree [] [] := by
  constructor
  · intro id
    simp [identified]
  · intro localOrder member
    cases member

/-- A store that holds only the positions of an account, with given quantities. -/
theorem exists_store (s : Store) (account : AccountId) :
    ∃ t : Store, listLocal t account = withTotals total (listLocal s account) ∧
      listActive t account = [] ∧ t.accounts account = none := by
  refine ⟨{ positions := withTotals total (listLocal s account) }, ?_, rfl, rfl⟩
  refine filter_eq_self.mpr fun position member => ?_
  obtain ⟨old, oldMember, rfl⟩ := mem_map.mp member
  exact (mem_filter.mp oldMember).2

theorem exists_state (broker : BrokerState) : ∃ state : BrokerState, state.orders = [] ∧
      state.positions = withTotals total broker.positions :=
  ⟨{ orders := []
     positions := withTotals total broker.positions
     account := broker.account
     orders_apart := nodup_nil
     positions_apart := by
       rw [withTotals_sameShape]
       exact broker.positions_apart }, rfl, rfl⟩

/-- For the positions that are listed on both sides, every reconciliation is exact, whatever the
quantities, prices, orders and account are, exactly when no symbol of the broker has two sides. -/
theorem exact_iff_oneSided (account : AccountId) {s : Store}
    (apart : ((listLocal s account).map positionKey).Nodup) (broker : BrokerState) :
    (∀ (t : Store) (state : BrokerState), SameShape (listLocal s account) (listLocal t account) →
        SameShape broker.positions state.positions → Exact t account state) ↔
      OneSided (listLocal s account) broker.positions := by
  constructor
  · intro exact
    by_contra twoSided
    obtain ⟨f, g, passes, differ⟩ := exists_missed apart broker.positions_apart twoSided
    obtain ⟨t, locals, actives, unstored⟩ := exists_store f s account
    obtain ⟨state, orders, sides⟩ := exists_state g broker
    obtain ⟨report, ran, ok⟩ := ok_reconcile t account state
    obtain ⟨again, ranAgain, agrees⟩ := exact t state
      (locals ▸ withTotals_sameShape f _) (sides ▸ withTotals_sameShape g _)
    rw [ran] at ranAgain
    cases ranAgain
    have passed : report.ok = true := by
      rw [ok, actives, orders, locals, sides, unstored]
      exact ⟨ordersAgree_nil, passes, nofun⟩
    have positions := (agrees.mp passed).positions
    rw [locals, sides] at positions
    exact differ positions
  · intro oneSided t state locals sides
    refine exact_of_oneSided ?_ (oneSided.sameShape locals sides)
    rw [locals]
    exact apart

end Runs

section Examples

def futuresPosition (side : PositionSide) (quantity : ℚ) : Position where
  accountId := "acc"
  symbol := { code := "IF2509", market := .future }
  positionSide := side
  totalQuantity := quantity

def brokerOf (positions : List Position) (apart : (positions.map positionKey).Nodup) :
    BrokerState where
  orders := []
  positions := positions
  account := { accountId := "acc" }
  orders_apart := nodup_nil
  positions_apart := apart

/-- A short position on both sides. -/
theorem exact_short : Exact { positions := [futuresPosition .short 1] } "acc"
    (brokerOf [futuresPosition .short 1] (by decide)) :=
  (exact_iff_oneSided "acc" (s := { positions := [futuresPosition .short 1] }) (by decide)
    (brokerOf [futuresPosition .short 1] (by decide))).mpr (by decide) _ _ rfl rfl

/-- The broker also has a long position that is not known locally; the run passes. -/
theorem exact_fails : ¬ Exact { positions := [futuresPosition .short 1] } "acc"
    (brokerOf [futuresPosition .long 5, futuresPosition .short 1] (by decide)) := by
  rintro ⟨report, ran, ok⟩
  have passed : report.ok = true := by
    have answered : ((reconcile "acc" (brokerOf [futuresPosition .long 5,
        futuresPosition .short 1] (by decide)).snapshot).exec
          { positions := [futuresPosition .short 1] }).1 = .ok {} := by
      decide +kernel
    rw [answered] at ran
    cases ran
    rfl
  have total := (ok.mp passed).positions.totals ("IF2509", .long)
  revert total
  decide +kernel

end Examples

end FinDashboard.Reconcile
