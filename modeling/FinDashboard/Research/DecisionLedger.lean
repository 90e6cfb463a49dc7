import FinDashboard.Research.Checkpoint
import FinDashboard.Research.Validator
import Mathlib.Algebra.Order.BigOperators.Group.List

/-!
# Validated decisions form a ledger

Along every run of accepted decisions the reported positions are the signed sums of the fills, no
sum is ever negative, no fill id is used twice and no order is filled beyond its quantity.
-/

namespace FinDashboard.Research

open List Ledger

def openedSum (fills : List ResearchFill) (key : PositionKey) : WithTop ℚ :=
  ((fills.filter fun fill => fill.positionKey = key ∧ fill.action.opens = true).map (·.amount)).sum

def closedSum (fills : List ResearchFill) (key : PositionKey) : WithTop ℚ :=
  ((fills.filter fun fill => fill.positionKey = key ∧ fill.action.opens = false).map (·.amount)).sum

/-- The signed sum of the fills of a position: closing fills count negative. -/
def SignedSum (fills : List ResearchFill) (key : PositionKey) (sum : WithTop ℚ) : Prop :=
  closedSum fills key ≠ ⊤ ∧ sum + closedSum fills key = openedSum fills key

def filledSum (fills : List ResearchFill) (researchOrderId : String) : WithTop ℚ :=
  ((fills.filter (·.researchOrderId = researchOrderId)).map (·.amount)).sum

section Sums

variable {fills : List ResearchFill} {fill : ResearchFill} {key : PositionKey}
  {quantity next : WithTop ℚ}

theorem openedSum_concat : openedSum (fills ++ [fill]) key = openedSum fills key +
    if fill.positionKey = key ∧ fill.action.opens = true then fill.amount else 0 := by
  unfold openedSum
  rw [filter_append, map_append, sum_append, filter_cons]
  by_cases counted : fill.positionKey = key ∧ fill.action.opens = true <;> simp [counted]

theorem closedSum_concat : closedSum (fills ++ [fill]) key = closedSum fills key +
    if fill.positionKey = key ∧ fill.action.opens = false then fill.amount else 0 := by
  unfold closedSum
  rw [filter_append, map_append, sum_append, filter_cons]
  by_cases counted : fill.positionKey = key ∧ fill.action.opens = false <;> simp [counted]

theorem filledSum_concat (researchOrderId : String) :
    filledSum (fills ++ [fill]) researchOrderId = filledSum fills researchOrderId +
      if fill.researchOrderId = researchOrderId then fill.amount else 0 := by
  unfold filledSum
  rw [filter_append, map_append, sum_append, filter_cons]
  by_cases counted : fill.researchOrderId = researchOrderId <;> simp [counted]

theorem signedSum_nil (key : PositionKey) : SignedSum [] key 0 := by
  simp [SignedSum, openedSum, closedSum]

theorem SignedSum.concat_other (sum : SignedSum fills key quantity) (other : fill.positionKey ≠ key) :
    SignedSum (fills ++ [fill]) key quantity := by
  unfold SignedSum
  rw [openedSum_concat, closedSum_concat, if_neg (fun both => other both.1),
    if_neg (fun both => other both.1), add_zero, add_zero]
  exact sum

theorem closedQuantity_eq_some {part : WithTop ℚ} (closed : closedQuantity quantity part = some next) :
    part ≠ ⊤ ∧ next + part = quantity ∧ 0 ≤ next := by
  cases part with
  | top => cases closed
  | coe part =>
    change (if quantity < (part : WithTop ℚ) then none else some (quantity.map (· - part))) =
      some next at closed
    split_ifs at closed with short
    cases closed
    refine ⟨WithTop.coe_ne_top, ?_⟩
    cases quantity with
    | top => exact ⟨rfl, le_top⟩
    | coe quantity =>
      have enough := WithTop.coe_le_coe.mp (not_lt.mp short)
      rw [WithTop.map_coe]
      refine ⟨?_, WithTop.coe_nonneg.mpr (sub_nonneg.mpr enough)⟩
      rw [← WithTop.coe_add, sub_add_cancel]

theorem SignedSum.concat (sum : SignedSum fills fill.positionKey quantity)
    (changed : changedQuantity fill quantity = some next) :
    SignedSum (fills ++ [fill]) fill.positionKey next := by
  obtain ⟨bounded, total⟩ := sum
  unfold SignedSum
  rw [openedSum_concat, closedSum_concat]
  unfold changedQuantity at changed
  cases opens : fill.action.opens with
  | true =>
    rw [opens, if_pos rfl] at changed
    cases changed
    simp only [Bool.true_eq_false, and_false, if_false, add_zero, and_self, if_true]
    refine ⟨bounded, ?_⟩
    rw [← total]
    exact add_right_comm _ _ _
  | false =>
    rw [opens, if_neg (by decide)] at changed
    obtain ⟨part_bounded, split, -⟩ := closedQuantity_eq_some changed
    simp only [Bool.false_eq_true, and_false, if_false, add_zero, and_self, if_true]
    refine ⟨WithTop.add_ne_top.mpr ⟨bounded, part_bounded⟩, ?_⟩
    rw [← total, ← split]
    exact (add_left_comm _ _ _).trans (add_comm _ _)

theorem changedQuantity_nonneg (changed : changedQuantity fill quantity = some next)
    (positive : 0 ≤ fill.amount) (before : 0 ≤ quantity) : 0 ≤ next := by
  unfold changedQuantity at changed
  split_ifs at changed
  · cases changed
    exact add_nonneg before positive
  · exact (closedQuantity_eq_some changed).2.2

theorem quantityOf_pos {decimal : Text.Decimal} (positive : decimal.Positive) :
    0 < quantityOf decimal := by
  cases decimal with
  | finite negative coefficient exponent =>
    have some_digit : (0 : ℚ) < coefficient := Nat.cast_pos.mpr (Nat.pos_of_ne_zero positive.2)
    exact WithTop.coe_pos.mpr (mul_pos some_digit (zpow_pos (by norm_num) exponent))
  | infinity negative => exact WithTop.top_pos
  | nan negative signaling payload => exact positive.elim

theorem amount_pos (fill : ResearchFill) : 0 < fill.amount := quantityOf_pos fill.valid.2.1.1

end Sums

/-- What holds of the state of a run after some fills. -/
structure RunInvariant (fills : List ResearchFill) (state : ValidatorState) : Prop where
  keys : (state.positionQuantities.map (·.1)).Nodup
  sums : ∀ key, SignedSum fills key (held state.positionQuantities key)
  nonnegative : ∀ key, 0 ≤ held state.positionQuantities key
  past : ∀ front rest, fills = front ++ rest → ∀ key, ∃ sum, 0 ≤ sum ∧ SignedSum front key sum
  seen : ∀ id, id ∈ state.seenFillIds ↔ id ∈ fills.map (·.researchFillId)
  unique : (fills.map (·.researchFillId)).Nodup

/-- What holds in the loop over the fills of a decision. -/
structure FillInvariant (earlier fills : List ResearchFill) (state : FillState) : Prop where
  run : RunInvariant (earlier ++ fills) state.run
  filled : ∀ id, filledQuantity state.filled id = filledSum fills id

section Loop

variable {orders : List ResearchOrder} {earlier fills more : List ResearchFill}
  {state next : FillState} {fill : ResearchFill} {run : ValidatorState}

theorem runInvariant_nil : RunInvariant [] { positionQuantities := [], seenFillIds := [] } where
  keys := nodup_nil
  sums := signedSum_nil
  nonnegative _ := le_rfl
  past front rest split key := by
    obtain ⟨rfl, -⟩ := append_eq_nil_iff.mp split.symm
    exact ⟨0, le_rfl, signedSum_nil key⟩
  seen _ := Iff.rfl
  unique := nodup_nil

theorem acceptFill_eq_ok : acceptFill orders state fill = .ok next ↔
    fill.researchFillId ∉ state.run.seenFillIds ∧
      ∃ order, findOrder orders fill.researchOrderId = some order ∧
        (fill.action = order.action ∧ fill.symbol = order.symbol) ∧ ∃ quantity,
            changedQuantity fill (held state.run.positionQuantities fill.positionKey) = some quantity ∧
            { run :=
                { positionQuantities :=
                    assign fill.positionKey quantity state.run.positionQuantities
                  seenFillIds := fill.researchFillId :: state.run.seenFillIds }
              filled := assign order.researchOrderId
                (filledQuantity state.filled order.researchOrderId + fill.amount)
                state.filled } = next := by
  simp [acceptFill]

theorem findOrder_eq_some {order : ResearchOrder} {id : String}
    (found : findOrder orders id = some order) : order ∈ orders ∧ order.researchOrderId = id :=
  ⟨mem_of_find?_eq_some found, by simpa using find?_some found⟩

variable {quantity : WithTop ℚ}

theorem held_assign {positions : List (PositionKey × WithTop ℚ)} {key other : PositionKey} :
    held (assign key quantity positions) other =
      if key = other then quantity else held positions other := by
  unfold held
  rw [find_assign]
  split <;> rfl

theorem filledQuantity_assign {filled : List (String × WithTop ℚ)} {id other : String} :
    filledQuantity (assign id quantity filled) other =
      if id = other then quantity else filledQuantity filled other := by
  unfold filledQuantity
  rw [find_assign]
  split <;> rfl

theorem RunInvariant.concat (invariant : RunInvariant fills run)
    (fresh : fill.researchFillId ∉ run.seenFillIds)
    (changed : changedQuantity fill (held run.positionQuantities fill.positionKey) = some quantity) :
    RunInvariant (fills ++ [fill])
      { positionQuantities := assign fill.positionKey quantity run.positionQuantities
        seenFillIds := fill.researchFillId :: run.seenFillIds } := by
  have sums : ∀ key, SignedSum (fills ++ [fill]) key
      (held (assign fill.positionKey quantity run.positionQuantities) key) := by
    intro key
    rw [held_assign]
    split_ifs with same
    · subst same
      exact (invariant.sums fill.positionKey).concat changed
    · exact (invariant.sums key).concat_other same
  have nonnegative : ∀ key,
      0 ≤ held (assign fill.positionKey quantity run.positionQuantities) key := by
    intro key
    rw [held_assign]
    split_ifs
    · exact changedQuantity_nonneg changed (amount_pos fill).le
        (invariant.nonnegative fill.positionKey)
    · exact invariant.nonnegative key
  refine ⟨nodup_keys_assign invariant.keys, sums, nonnegative, ?_, ?_, ?_⟩
  · intro front rest split key
    rcases eq_nil_or_concat rest with rfl | ⟨rest, last, rfl⟩
    · rw [append_nil] at split
      subst split
      exact ⟨_, nonnegative key, sums key⟩
    · rw [concat_eq_append, ← append_assoc] at split
      exact invariant.past front rest (append_inj_left' split rfl) key
  · intro id
    rw [map_append, mem_append, mem_cons, invariant.seen id]
    simp [or_comm]
  · rw [map_append]
    apply nodup_append.mpr
    refine ⟨invariant.unique, nodup_singleton _, ?_⟩
    intro id member other single same
    rw [same, mem_singleton.mp single] at member
    exact fresh ((invariant.seen _).mpr member)

theorem FillInvariant.step (invariant : FillInvariant earlier fills state)
    (accepted : acceptFill orders state fill = .ok next) :
    FillInvariant earlier (fills ++ [fill]) next := by
  obtain ⟨fresh, order, found, -, quantity, changed, rfl⟩ := acceptFill_eq_ok.mp accepted
  obtain ⟨-, same_order⟩ := findOrder_eq_some found
  refine ⟨?_, ?_⟩
  · rw [← append_assoc]
    exact invariant.run.concat fresh changed
  · intro id
    rw [filledQuantity_assign, filledSum_concat, same_order]
    split_ifs with same
    · rw [same, invariant.filled]
    · rw [add_zero, invariant.filled]

theorem FillInvariant.steps (invariant : FillInvariant earlier fills state)
    (accepted : acceptFills orders state more = .ok next) :
    FillInvariant earlier (fills ++ more) next := by
  induction more generalizing fills state with
  | nil =>
    cases accepted
    rw [append_nil]
    exact invariant
  | cons fill more ih =>
    rw [acceptFills] at accepted
    obtain ⟨middle, first, rest⟩ := bind_eq_ok.mp accepted
    rw [← singleton_append, ← append_assoc]
    exact ih (invariant.step first) rest

end Loop

namespace DecisionBundle

def reported (decision : DecisionBundle) (key : PositionKey) : WithTop ℚ :=
  held decision.positionEntries key

end DecisionBundle

/-- What the validation compares of an order. -/
structure OrderCompared (fills : List ResearchFill) (order : ResearchOrder) : Prop where
  bounded : filledSum fills order.researchOrderId ≤ quantityOf order.quantity
  filled : order.status = .filled →
    filledSum fills order.researchOrderId = quantityOf order.quantity
  partiallyFilled : order.status = .partiallyFilled →
    0 < filledSum fills order.researchOrderId ∧
      filledSum fills order.researchOrderId < quantityOf order.quantity
  rejected : order.status = .rejected → filledSum fills order.researchOrderId = 0

section Decision

variable {sha256 : List Char → String} {manifestInputChecksum : String} {decision : DecisionBundle}
  {earlier : List ResearchFill} {state next : ValidatorState} {after : FillState}
  {entries first second : List (PositionKey × WithTop ℚ)} {orders : List ResearchOrder}
  {filled : List (String × WithTop ℚ)} {key : PositionKey} {order : ResearchOrder}

theorem validate_eq_ok
    (accepted : decision.validate sha256 manifestInputChecksum state = .ok next) :
    ∃ after, acceptFills decision.orders { run := state, filled := [] } decision.fills = .ok after ∧
      (∀ entry ∈ after.filled, ∀ order ∈ findOrder decision.orders entry.1,
        entry.2 ≤ quantityOf order.quantity) ∧
      validateStatuses after.filled decision.orders = .ok () ∧
      SameEntries (nonzeroEntries decision.positionEntries)
        (nonzeroEntries after.run.positionQuantities) ∧ after.run = next := by
  simp only [DecisionBundle.validate, bind_eq_ok, require_eq_ok, exists_const,
    Except.ok.injEq] at accepted
  obtain ⟨-, -, -, -, -, -, -, after, fills, bounded, ⟨⟩, statuses, same, -, -, -, rfl⟩ := accepted
  exact ⟨after, fills, bounded, statuses, same, rfl⟩

theorem held_nonzeroEntries (apart : (entries.map (·.1)).Nodup) (key : PositionKey) :
    held (nonzeroEntries entries) key = held entries key := by
  unfold held
  induction entries with
  | nil => rfl
  | cons entry entries ih =>
    obtain ⟨absent, apart⟩ := nodup_cons.mp apart
    have later := ih apart
    unfold nonzeroEntries at later ⊢
    by_cases zero : entry.2 = 0
    · rw [filter_cons_of_neg (by simpa using zero), later, find_cons]
      split_ifs with same
      · rw [Option.getD_some, zero]
        cases found : find key entries with
        | none => rfl
        | some value =>
          subst same
          exact absurd (mem_map_of_mem (mem_of_find found)) absent
      · rfl
    · rw [filter_cons_of_pos (by simpa using zero), find_cons, find_cons]
      split_ifs
      · rfl
      · exact later

theorem SameEntries.find_eq (same : SameEntries first second) (key : PositionKey) :
    find key first = find key second := by
  by_cases member : key ∈ first.map (·.1) ++ second.map (·.1)
  · exact same key member
  · obtain ⟨not_first, not_second⟩ := not_or.mp (fun either => member (mem_append.mpr either))
    have absent : ∀ entries : List (PositionKey × WithTop ℚ), key ∉ entries.map (·.1) →
        find key entries = none := by
      intro entries unknown
      cases found : find key entries with
      | none => rfl
      | some value => exact absurd (mem_map_of_mem (mem_of_find found)) unknown
    rw [absent first not_first, absent second not_second]

theorem nodup_positionEntries (decision : DecisionBundle) :
    (decision.positionEntries.map (·.1)).Nodup := by
  unfold DecisionBundle.positionEntries
  rw [map_map]
  exact decision.valid.2.2.2.2.2.1

theorem reported_eq (apart : (entries.map (·.1)).Nodup)
    (same : SameEntries (nonzeroEntries decision.positionEntries) (nonzeroEntries entries))
    (key : PositionKey) : decision.reported key = held entries key := by
  have kept := held_nonzeroEntries (nodup_positionEntries decision) key
  rw [DecisionBundle.reported, ← kept, ← held_nonzeroEntries apart key, held, held, same.find_eq key]

theorem validateStatus_of_mem (accepted : validateStatuses filled orders = .ok ())
    (member : order ∈ orders) : validateStatus filled order = .ok () := by
  induction orders with
  | nil => cases member
  | cons other orders ih =>
    rw [validateStatuses] at accepted
    obtain ⟨⟨⟩, here, rest⟩ := bind_eq_ok.mp accepted
    rcases mem_cons.mp member with rfl | later
    · exact here
    · exact ih rest later

theorem findOrder_of_mem (apart : (orders.map (·.researchOrderId)).Nodup) (member : order ∈ orders) :
    findOrder orders order.researchOrderId = some order := by
  unfold findOrder
  induction orders with
  | nil => cases member
  | cons other orders ih =>
    obtain ⟨absent, apart⟩ := nodup_cons.mp apart
    rcases mem_cons.mp member with rfl | later
    · exact find?_cons_of_pos (by simp)
    · have differs : other.researchOrderId ≠ order.researchOrderId := by
        intro same
        exact absent (mem_map.mpr ⟨order, later, same.symm⟩)
      rw [find?_cons_of_neg (by simpa using differs)]
      exact ih apart later

theorem filledQuantity_le (apart : (orders.map (·.researchOrderId)).Nodup) (member : order ∈ orders)
    (bounded : ∀ entry ∈ filled, ∀ order ∈ findOrder orders entry.1,
      entry.2 ≤ quantityOf order.quantity) :
    filledQuantity filled order.researchOrderId ≤ quantityOf order.quantity := by
  unfold filledQuantity
  cases found : find order.researchOrderId filled with
  | none => exact (quantityOf_pos order.valid.2.1).le
  | some quantity =>
    exact bounded _ (mem_of_find found) order (findOrder_of_mem apart member)

/-- An accepted decision: the state goes on, the report is the state, and each order is compared. -/
theorem RunInvariant.validate (invariant : RunInvariant earlier state)
    (accepted : decision.validate sha256 manifestInputChecksum state = .ok next) :
    RunInvariant (earlier ++ decision.fills) next ∧
      (∀ key, decision.reported key = held next.positionQuantities key) ∧
        ∀ order ∈ decision.orders, OrderCompared decision.fills order := by
  obtain ⟨after, fills, bounded, statuses, same, rfl⟩ := validate_eq_ok accepted
  have start : FillInvariant earlier [] { run := state, filled := [] } :=
    ⟨by rw [append_nil]; exact invariant, fun _ => rfl⟩
  have done := start.steps fills
  rw [nil_append] at done
  refine ⟨done.run, reported_eq done.run.keys same, ?_⟩
  intro order member
  have limit := filledQuantity_le decision.valid.2.2.2.1 member bounded
  have status := validateStatus_of_mem statuses member
  simp only [validateStatus, require_bind_eq_ok, require_eq_ok, done.filled] at limit status
  exact ⟨limit, status.1, status.2.1, status.2.2⟩

end Decision

def allFills (decisions : List DecisionBundle) : List ResearchFill := decisions.flatMap (·.fills)

def ValidatorState.empty : ValidatorState := { positionQuantities := [], seenFillIds := [] }

/-- The decisions form a ledger. -/
structure FormLedger (decisions : List DecisionBundle) : Prop where
  positions : ∀ front decision rest, decisions = front ++ decision :: rest → ∀ key,
    SignedSum (allFills (front ++ [decision])) key (decision.reported key)
  nonnegative : ∀ front rest, allFills decisions = front ++ rest → ∀ key,
    ∃ sum, 0 ≤ sum ∧ SignedSum front key sum
  fillIds : ((allFills decisions).map (·.researchFillId)).Nodup
  bounded : ∀ decision ∈ decisions, ∀ order ∈ decision.orders,
    filledSum decision.fills order.researchOrderId ≤ quantityOf order.quantity
  statuses : ∀ decision ∈ decisions, ∀ order ∈ decision.orders,
    (order.status = .filled ↔ filledSum decision.fills order.researchOrderId = quantityOf order.quantity)

section Runs

variable {sha256 : List Char → String} {manifestInputChecksum : String}
  {decisions front rest : List DecisionBundle} {earlier : List ResearchFill}
  {decision : DecisionBundle} {state final : ValidatorState}

theorem validateRun_append_eq_ok :
    validateRun sha256 manifestInputChecksum state (front ++ rest) = .ok final ↔
      ∃ middle, validateRun sha256 manifestInputChecksum state front = .ok middle ∧
        validateRun sha256 manifestInputChecksum middle rest = .ok final := by
  induction front generalizing state with
  | nil => exact ⟨fun whole => ⟨state, rfl, whole⟩, fun ⟨_, start, whole⟩ => by
      cases start
      exact whole⟩
  | cons first front ih =>
    rw [cons_append, validateRun, validateRun, bind_eq_ok]
    constructor
    · rintro ⟨next, here, whole⟩
      obtain ⟨middle, before, after⟩ := ih.mp whole
      exact ⟨middle, bind_eq_ok.mpr ⟨next, here, before⟩, after⟩
    · rintro ⟨middle, before, after⟩
      obtain ⟨next, here, before⟩ := bind_eq_ok.mp before
      exact ⟨next, here, ih.mpr ⟨middle, before, after⟩⟩

theorem RunInvariant.validateRun (invariant : RunInvariant earlier state)
    (accepted : validateRun sha256 manifestInputChecksum state decisions = .ok final) :
    RunInvariant (earlier ++ allFills decisions) final := by
  induction decisions generalizing earlier state with
  | nil =>
    cases accepted
    rw [allFills, flatMap_nil, append_nil]
    exact invariant
  | cons decision decisions ih =>
    rw [Research.validateRun] at accepted
    obtain ⟨next, here, rest⟩ := bind_eq_ok.mp accepted
    have later := ih (invariant.validate here).1 rest
    rw [append_assoc] at later
    exact later

theorem validated_at
    (accepted : validateRun sha256 manifestInputChecksum .empty (front ++ decision :: rest) = .ok final) :
    (∀ key, SignedSum (allFills (front ++ [decision])) key (decision.reported key)) ∧
      ∀ order ∈ decision.orders, OrderCompared decision.fills order := by
  obtain ⟨middle, before, after⟩ := validateRun_append_eq_ok.mp accepted
  rw [validateRun] at after
  obtain ⟨next, here, -⟩ := bind_eq_ok.mp after
  have start := runInvariant_nil.validateRun before
  rw [nil_append] at start
  obtain ⟨done, reported, compared⟩ := start.validate here
  refine ⟨?_, compared⟩
  intro key
  rw [reported key, allFills, flatMap_append, flatMap_singleton]
  exact done.sums key

/-- An order of an accepted decision whose status is one of those that are compared. -/
theorem OrderCompared.filled_iff {fills : List ResearchFill} {order : ResearchOrder}
    (compared : OrderCompared fills order) (status : order.status ∉ [.created, .cancelled, .expired]) :
    order.status = .filled ↔ filledSum fills order.researchOrderId = quantityOf order.quantity := by
  constructor
  · exact compared.filled
  · intro complete
    have positive := quantityOf_pos order.valid.2.1
    cases kind : order.status with
    | filled => rfl
    | partiallyFilled => exact absurd complete (compared.partiallyFilled kind).2.ne
    | rejected =>
      rw [compared.rejected kind] at complete
      exact absurd complete positive.ne
    | created => simp [kind] at status
    | cancelled => simp [kind] at status
    | expired => simp [kind] at status

/-- The decisions of an accepted run form a ledger if and only if no order that is created,
cancelled or expired is filled completely. -/
theorem formLedger_iff
    (accepted : validateRun sha256 manifestInputChecksum .empty decisions = .ok final) :
    FormLedger decisions ↔ ∀ decision ∈ decisions, ∀ order ∈ decision.orders,
      order.status ∈ [.created, .cancelled, .expired] →
        filledSum decision.fills order.researchOrderId ≠ quantityOf order.quantity := by
  have compared : ∀ decision ∈ decisions, ∀ order ∈ decision.orders,
      OrderCompared decision.fills order := by
    intro decision member
    obtain ⟨front, rest, rfl⟩ := append_of_mem member
    exact (validated_at accepted).2
  have run := runInvariant_nil.validateRun accepted
  rw [nil_append] at run
  constructor
  · intro ledger decision member order ordered status complete
    rw [(ledger.statuses decision member order ordered).mpr complete] at status
    exact absurd status (by decide)
  · intro open_orders
    refine ⟨?_, run.past, run.unique, ?_, ?_⟩
    · intro front decision rest split
      subst split
      exact (validated_at accepted).1
    · exact fun decision member order ordered => (compared decision member order ordered).bounded
    · intro decision member order ordered
      by_cases status : order.status ∈ [.created, .cancelled, .expired]
      · have incomplete := open_orders decision member order ordered status
        refine iff_of_false ?_ incomplete
        intro filled
        rw [filled] at status
        exact absurd status (by decide)
      · exact (compared decision member order ordered).filled_iff status

end Runs

/-- The purchase with the evidence of its pipeline. -/
def recordedPurchase (status : ResearchOrderStatus) (accepted : status ≠ .rejected)
    (checksum : String) (some_checksum : checksum ≠ "") : DecisionBundle :=
  Purchase.decision status accepted (some {
      manifestInputChecksum := "manifest", inputChecksum := "inputs"
      outputChecksum := checksum, hardConstraintsPassed := true
      pipelineVersion := pipelineVersion
      named := ⟨by decide, by decide, some_checksum, by decide⟩ })

/-- The order is filled completely and says so. -/
def filledPurchase : DecisionBundle :=
  recordedPurchase .filled nofun
    "9f4dd3b33f87cae134fa587cb759a220ef93f28adb7e410ce417e7e425a5bc78" (by decide)

/-- The order is filled completely and stays created. -/
def createdPurchase : DecisionBundle :=
  recordedPurchase .created nofun
    "9d6899bf34e226f9b4afae6784e3d15515c82d78eaac4598e9f20c9a8ee4b66c" (by decide)

theorem exists_of_isOk {α : Type} {result : Validated α} (accepted : result.isOk = true) :
    ∃ value, result = .ok value := by
  cases result with
  | ok value => exact ⟨value, rfl⟩
  | error _ => cases accepted

theorem formLedger_filledPurchase : FormLedger [filledPurchase] := by
  have accepted : (validateRun
      (fun _ => "9f4dd3b33f87cae134fa587cb759a220ef93f28adb7e410ce417e7e425a5bc78")
      "manifest" .empty [filledPurchase]).isOk = true := by
    decide +kernel
  obtain ⟨final, accepted⟩ := exists_of_isOk accepted
  refine (formLedger_iff accepted).mpr ?_
  intro decision member order ordered status
  obtain rfl := mem_singleton.mp member
  obtain rfl := mem_singleton.mp ordered
  exact absurd status (by decide)

/-- A completely filled order that stays created is accepted. -/
theorem filled_order_stays_created :
    (validateRun (fun _ => "9d6899bf34e226f9b4afae6784e3d15515c82d78eaac4598e9f20c9a8ee4b66c")
      "manifest" .empty [createdPurchase]).isOk = true ∧ ¬ FormLedger [createdPurchase] := by
  refine ⟨by decide +kernel, ?_⟩
  intro ledger
  have complete : filledSum createdPurchase.fills "RR-O1" = quantityOf (Purchase.amount 100) := by
    decide +kernel
  have ordered : Purchase.order .created nofun ∈ createdPurchase.orders :=
    mem_singleton_self _
  have filled := (ledger.statuses _ (mem_singleton_self _) _ ordered).mpr complete
  exact absurd filled (by decide)

end FinDashboard.Research
