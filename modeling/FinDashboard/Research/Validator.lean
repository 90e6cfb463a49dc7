import FinDashboard.Research.Payload

/-!
# The validation of a decision

Each decision of a run is validated against the positions that the fills before it have built up
and the fill ids seen so far. Amounts are added exactly; an infinite quantity stays infinite.
-/

namespace FinDashboard.Research

open FinDashboard.Text (Decimal Json PyFloat)

/-- The size of a decimal; an undefined one has none. -/
def magnitude? : Decimal → Option (WithTop ℚ)
  | .finite _ coefficient exponent => some ((coefficient * 10 ^ exponent : ℚ) : WithTop ℚ)
  | .infinity _ => some ⊤
  | .nan _ _ _ => none

/-- The amount of a decimal that is not negative. -/
def quantityOf (decimal : Decimal) : WithTop ℚ := (magnitude? decimal).getD 0

/-- Sums of decimals of either sign. -/
inductive Amount
  | finite (value : ℚ)
  | infinite (negative : Bool)
deriving DecidableEq

namespace Amount

def ofDecimal : Decimal → Option Amount
  | .finite negative coefficient exponent =>
    some (.finite ((if negative then -1 else 1) * coefficient * 10 ^ exponent))
  | .infinity negative => some (.infinite negative)
  | .nan _ _ _ => none

def add : Amount → Amount → Option Amount
  | .finite first, .finite second => some (.finite (first + second))
  | .finite _, .infinite negative => some (.infinite negative)
  | .infinite negative, .finite _ => some (.infinite negative)
  | .infinite first, .infinite second => if first = second then some (.infinite first) else none

def sumFrom (total : Amount) : List Decimal → Option Amount
  | [] => some total
  | decimal :: rest => do sumFrom (← add total (← ofDecimal decimal)) rest

def sum (decimals : List Decimal) : Option Amount := sumFrom (.finite 0) decimals

end Amount

inductive ValidationError
  | missingEvidence
  | unsupportedPipeline
  | foreignManifest
  | outputWithoutText
  | outputMismatch
  | missingConstraints
  | hardStatusMismatch
  | hardConstraintFailed
  | incompleteTiers
  | differentTierInputs
  | unknownSignal
  | unexplainedTarget
  | duplicateInstruction
  | missingInstruction
  | orderMismatch
  | undefinedInstruction
  | orderTooLarge
  | missingOrder
  | duplicateOrder
  | duplicateFill
  | fillWithoutOrder
  | fillMismatch
  | negativePosition
  | overfilled
  | filledStatus
  | partialStatus
  | rejectedStatus
  | positionMismatch
  | marketValueMismatch
  | realizedMismatch
  | unrealizedMismatch
deriving DecidableEq, Repr

abbrev Validated (α : Type) := Except ValidationError α

def require (condition : Prop) [Decidable condition] (error : ValidationError) : Validated Unit :=
  if condition then .ok () else .error error

def given {α : Type} (error : ValidationError) : Option α → Validated α
  | some value => .ok value
  | none => .error error

section Checks

variable {α β : Type} {condition : Prop} [Decidable condition] {error : ValidationError} {result : β}

@[simp] theorem require_bind_eq_ok {next : Unit → Validated β} :
    (require condition error >>= next) = .ok result ↔ condition ∧ next () = .ok result := by
  unfold require
  split
  · rename_i holds
    exact (and_iff_right holds).symm
  · rename_i fails
    exact ⟨nofun, fun both => absurd both.1 fails⟩

@[simp] theorem require_eq_ok {done : Unit} : require condition error = .ok done ↔ condition := by
  unfold require
  split
  · rename_i holds
    exact iff_of_true rfl holds
  · rename_i fails
    exact iff_of_false nofun fails

@[simp] theorem given_bind_eq_ok {found : Option α} {next : α → Validated β} :
    (given error found >>= next) = .ok result ↔
      ∃ value, found = some value ∧ next value = .ok result := by
  cases found with
  | none => exact ⟨nofun, nofun⟩
  | some value => exact ⟨fun rest => ⟨value, rfl, rest⟩, fun ⟨_, rfl, rest⟩ => rest⟩

theorem bind_eq_ok {first : Validated α} {next : α → Validated β} :
    (first >>= next) = .ok result ↔ ∃ value, first = .ok value ∧ next value = .ok result := by
  cases first with
  | error _ => exact ⟨nofun, nofun⟩
  | ok value => exact ⟨fun rest => ⟨value, rfl, rest⟩, fun ⟨_, rfl, rest⟩ => rest⟩

end Checks

def pipelineVersion : String := "v1"

def maxWeightEpsilon : ℚ := 1 / 10 ^ 9

/-- A weight above the tolerance; an undefined one is not. -/
def exceedsEpsilon : PyFloat → Bool
  | .finite negative number =>
    maxWeightEpsilon < (if negative then -1 else 1) * number.coefficient * 10 ^ number.exponent
  | .infinity negative => !negative
  | .nan => false

namespace DecisionBundle

variable (decision : DecisionBundle)

def failedHard : List String :=
  (decision.constraints.filter fun item => item.hard && !item.passed).map (·.constraint)

def bandRetainedSymbols : List String :=
  (decision.constraints.filter fun item => item.constraint = "rebalance_band" ∧ item.passed ∧
    (item.afterValue.any exceedsEpsilon)).filterMap (·.symbol)

def candidateSymbols : List String :=
  (decision.candidates.filter (·.included)).map (·.symbol)

def signalSymbols : List String := decision.signals.map (·.symbol)

def targetSymbols : List String :=
  (decision.targetsBeforeConstraints ++ decision.targetsAfterConstraints ++
    decision.targetsAfterRisk).map (·.symbol)

def tierNames : List String := decision.capitalFeasibility.map (·.tier)

def validateStages (sha256 : List Char → String) (manifestInputChecksum : String) :
    Validated Unit := do
  let evidence ← given .missingEvidence decision.pipelineEvidence
  require (evidence.pipelineVersion = pipelineVersion) .unsupportedPipeline
  require (evidence.manifestInputChecksum = manifestInputChecksum) .foreignManifest
  let checksum ← given .outputWithoutText (stableChecksum sha256 decision.pipelineOutput)
  require (evidence.outputChecksum = checksum) .outputMismatch
  require (decision.constraints ≠ []) .missingConstraints
  require (evidence.hardConstraintsPassed = decide (decision.failedHard = [])) .hardStatusMismatch
  require (decision.failedHard = []) .hardConstraintFailed
  require (decision.tierNames ⊆ ["100k", "200k", "500k"] ∧
    ["100k", "200k", "500k"] ⊆ decision.tierNames) .incompleteTiers
  require ((decision.capitalFeasibility.map (·.inputChecksum)).dedup.length = 1)
    .differentTierInputs
  require (decision.signalSymbols ⊆ decision.candidateSymbols) .unknownSignal
  require (decision.targetSymbols ⊆ decision.signalSymbols ++ decision.bandRetainedSymbols)
    .unexplainedTarget

end DecisionBundle

def findInstruction (plan : List RebalanceInstruction) (instructionId : String) :
    Option RebalanceInstruction :=
  plan.find? (·.instructionId = instructionId)

def findOrder (orders : List ResearchOrder) (researchOrderId : String) : Option ResearchOrder :=
  orders.find? (·.researchOrderId = researchOrderId)

def validateOrder (plan : List RebalanceInstruction) (order : ResearchOrder) : Validated Unit := do
  let instruction ← given .missingInstruction (findInstruction plan order.instructionId)
  require (order.symbol = instruction.symbol ∧ order.action = instruction.action) .orderMismatch
  let limit ← given .undefinedInstruction (magnitude? instruction.deltaQuantity)
  require (quantityOf order.quantity ≤ limit) .orderTooLarge

def validateOrders (plan : List RebalanceInstruction) : List ResearchOrder → Validated Unit
  | [] => .ok ()
  | order :: rest => do
    validateOrder plan order
    validateOrders plan rest

/-- A position is named by its symbol and its side. -/
abbrev PositionKey := String × ResearchPositionSide

structure ValidatorState where
  positionQuantities : List (PositionKey × WithTop ℚ)
  seenFillIds : List String

namespace ResearchFillAction

def positionSide : ResearchFillAction → ResearchPositionSide
  | .openLong => .long
  | .closeLong => .long
  | .openShort => .short
  | .closeShort => .short

def opens : ResearchFillAction → Bool
  | .openLong => true
  | .closeLong => false
  | .openShort => true
  | .closeShort => false

end ResearchFillAction

namespace ResearchFill

variable (fill : ResearchFill)

def positionKey : PositionKey := (fill.symbol, fill.action.positionSide)

def amount : WithTop ℚ := quantityOf fill.quantity

end ResearchFill

/-- The quantity of a position after a part of it is closed; a negative one is refused, and so is
an infinite part. -/
def closedQuantity (held : WithTop ℚ) : WithTop ℚ → Option (WithTop ℚ)
  | none => none
  | some part => if held < (part : WithTop ℚ) then none else some (held.map (· - part))

/-- `_position_delta` applied to the quantity held. -/
def changedQuantity (fill : ResearchFill) (held : WithTop ℚ) : Option (WithTop ℚ) :=
  if fill.action.opens then some (held + fill.amount) else closedQuantity held fill.amount

/-- The state of the fill loop: next to the state of the run, what each order has been filled. -/
structure FillState where
  run : ValidatorState
  filled : List (String × WithTop ℚ)

def held (positions : List (PositionKey × WithTop ℚ)) (key : PositionKey) : WithTop ℚ :=
  (Ledger.find key positions).getD 0

def filledQuantity (filled : List (String × WithTop ℚ)) (researchOrderId : String) : WithTop ℚ :=
  (Ledger.find researchOrderId filled).getD 0

def acceptFill (orders : List ResearchOrder) (state : FillState) (fill : ResearchFill) :
    Validated FillState := do
  require (fill.researchFillId ∉ state.run.seenFillIds) .duplicateFill
  let order ← given .fillWithoutOrder (findOrder orders fill.researchOrderId)
  require (fill.action = order.action ∧ fill.symbol = order.symbol) .fillMismatch
  let quantity ← given .negativePosition
    (changedQuantity fill (held state.run.positionQuantities fill.positionKey))
  .ok
    { run :=
        { positionQuantities :=
            Ledger.assign fill.positionKey quantity state.run.positionQuantities
          seenFillIds := fill.researchFillId :: state.run.seenFillIds }
      filled := Ledger.assign order.researchOrderId
        (filledQuantity state.filled order.researchOrderId + fill.amount) state.filled }

def acceptFills (orders : List ResearchOrder) (state : FillState) :
    List ResearchFill → Validated FillState
  | [] => .ok state
  | fill :: rest => do acceptFills orders (← acceptFill orders state fill) rest

/-- Only three of the statuses are compared with the fills. -/
def validateStatus (filled : List (String × WithTop ℚ)) (order : ResearchOrder) :
    Validated Unit := do
  let quantity := filledQuantity filled order.researchOrderId
  require (order.status = .filled → quantity = quantityOf order.quantity) .filledStatus
  require (order.status = .partiallyFilled → 0 < quantity ∧ quantity < quantityOf order.quantity)
    .partialStatus
  require (order.status = .rejected → quantity = 0) .rejectedStatus

def validateStatuses (filled : List (String × WithTop ℚ)) : List ResearchOrder → Validated Unit
  | [] => .ok ()
  | order :: rest => do
    validateStatus filled order
    validateStatuses filled rest

def nonzeroEntries (positions : List (PositionKey × WithTop ℚ)) : List (PositionKey × WithTop ℚ) :=
  positions.filter fun entry => entry.2 ≠ 0

/-- Two dictionaries are equal. -/
def SameEntries (first second : List (PositionKey × WithTop ℚ)) : Prop :=
  ∀ key ∈ first.map (·.1) ++ second.map (·.1), Ledger.find key first = Ledger.find key second

instance (first second : List (PositionKey × WithTop ℚ)) : Decidable (SameEntries first second) :=
  inferInstanceAs (Decidable (∀ key ∈ _, _))

namespace DecisionBundle

variable (decision : DecisionBundle)

def positionEntries : List (PositionKey × WithTop ℚ) :=
  decision.positions.map fun position =>
    ((position.symbol, position.positionSide), quantityOf position.quantity)

/-- The market value of the positions is the one of the ledger, up to the tolerance. -/
def MarketValueMatches : Prop :=
  ∃ m ∈ decision.ledger.marketValue.value?,
    ∃ s ∈ Amount.sum (decision.positions.map (·.marketValue)),
      match s with
      | .finite total => |total - m| ≤ moneyEpsilon
      | .infinite _ => False

instance : Decidable decision.MarketValueMatches :=
  match foundLedger : decision.ledger.marketValue.value?,
    foundSum : Amount.sum (decision.positions.map (·.marketValue)) with
  | some m, some (.finite total) =>
    decidable_of_iff (|total - m| ≤ moneyEpsilon)
      (by simp [MarketValueMatches, foundLedger, foundSum])
  | some _, some (.infinite _) => .isFalse (by simp [MarketValueMatches, foundSum])
  | some _, none => .isFalse (by simp [MarketValueMatches, foundSum])
  | none, _ => .isFalse (by simp [MarketValueMatches, foundLedger])

/-- A total of the ledger is the sum over the positions. -/
def totalsMatch (total : Decimal) (parts : List Decimal) : Bool :=
  match Amount.ofDecimal total, Amount.sum parts with
  | some total, some sum => total = sum
  | _, _ => false

/-- `_validate_decision`. -/
def validate (sha256 : List Char → String) (manifestInputChecksum : String)
    (state : ValidatorState) : Validated ValidatorState := do
  decision.validateStages sha256 manifestInputChecksum
  require (decision.rebalancePlan.map (·.instructionId)).Nodup .duplicateInstruction
  validateOrders decision.rebalancePlan decision.orders
  require (∀ instruction ∈ decision.rebalancePlan,
    instruction.instructionId ∈ decision.orders.map (·.instructionId)) .missingOrder
  require (decision.orders.map (·.instructionId)).Nodup .duplicateOrder
  let after ← acceptFills decision.orders { run := state, filled := [] } decision.fills
  require (∀ entry ∈ after.filled, ∀ order ∈ findOrder decision.orders entry.1,
    entry.2 ≤ quantityOf order.quantity) .overfilled
  validateStatuses after.filled decision.orders
  require (SameEntries (nonzeroEntries decision.positionEntries)
    (nonzeroEntries after.run.positionQuantities)) .positionMismatch
  require decision.MarketValueMatches .marketValueMismatch
  require (totalsMatch decision.ledger.realizedPnl (decision.positions.map (·.realizedPnl)) = true)
    .realizedMismatch
  require (totalsMatch decision.ledger.unrealizedPnl
    (decision.positions.map (·.unrealizedPnl)) = true) .unrealizedMismatch
  .ok after.run

end DecisionBundle

def validateRun (sha256 : List Char → String) (manifestInputChecksum : String)
    (state : ValidatorState) : List DecisionBundle → Validated ValidatorState
  | [] => .ok state
  | decision :: rest => do
    validateRun sha256 manifestInputChecksum
      (← decision.validate sha256 manifestInputChecksum state) rest

end FinDashboard.Research
