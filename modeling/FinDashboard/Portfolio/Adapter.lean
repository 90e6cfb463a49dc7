import FinDashboard.Portfolio.Pipeline

/-!
# The adapter and its resume seed

An adapter can take over decisions that were completed before: it yields them as they are and goes on from
there. The account is taken from the last of them, and the book is replayed from the fills of all.
-/

namespace FinDashboard.Portfolio

open Ledger

variable {α ω K F : Type} [DecimalArithmetic K] [FloatArithmetic F]

/-- The inputs are at hand, or pulled from a stream, of which the first may be kept as stubs. -/
inductive DecisionInputs (α F : Type) [FloatArithmetic F]
  | sequence (inputs : List (PortfolioDecisionInput α F))
  | stream (coming : List (PortfolioDecisionInput α F)) (stubs : List (ResumeReplayStub F))

structure PortfolioPipelineAdapter (α ω K F : Type) [DecimalArithmetic K] [FloatArithmetic F] where
  inputs : DecisionInputs α F
  resumeBundles : Option (List (DecisionBundle ω K F)) := none
  resumeState : Option (PipelineState K) := none

def resumeStubOf (item : PortfolioDecisionInput α F) : ResumeReplayStub F where
  businessDate := item.businessDate
  decisionAt := item.decisionAt
  lotInfo := item.lotInfo
  prices := item.prices
  executionPrices := item.executionPrices

namespace PortfolioPipelineAdapter

/-- `aprefetch_inputs`. -/
def prefetchInputs (adapter : PortfolioPipelineAdapter α ω K F) (count : ℕ) :
    PortfolioPipelineAdapter α ω K F :=
  match adapter.inputs with
  | .sequence _ => adapter
  | .stream coming stubs =>
    let pulled := count - stubs.length
    { adapter with
      inputs := .stream (coming.drop pulled) (stubs ++ (coming.take pulled).map resumeStubOf) }

/-- What a resume seed is checked against. -/
def validationInputs (adapter : PortfolioPipelineAdapter α ω K F) : List (ResumeReplayStub F) :=
  match adapter.inputs with
  | .sequence inputs => inputs.map resumeStubOf
  | .stream _ stubs => stubs

def inputsFrom (adapter : PortfolioPipelineAdapter α ω K F) (index : ℕ) :
    List (PortfolioDecisionInput α F) :=
  match adapter.inputs with
  | .sequence inputs => inputs.drop index
  | .stream coming _ => coming

end PortfolioPipelineAdapter

/-- `validate_manifest`, as far as it orders the inputs: no day twice, and every time after the last. -/
def validateManifest (seenDates : List ℤ) (previousAt : Option ℤ) :
    List (PortfolioDecisionInput α F) → Bool
  | [] => true
  | item :: rest =>
    item.businessDate ∉ seenDates && previousAt.all (· < item.decisionAt) &&
      validateManifest (item.businessDate :: seenDates) (some item.decisionAt) rest

/-- Before a decision a held position is marked at its decision price. -/
def replayMark (math : PipelineMath K F) (stub : ResumeReplayStub F)
    (entry : String × BookPosition K) : Option (String × BookPosition K) :=
  if entry.2.quantity ≤ 0 then some entry
  else
    match find entry.1 stub.prices, find entry.1 stub.lotInfo with
    | some price, some _ =>
      some (entry.1, { entry.2 with
        highWaterPrice := pyMax entry.2.highWaterPrice (math.decimal price) })
    | _, _ => none

def replayFill (math : PipelineMath K F) (stub : ResumeReplayStub F)
    (positions : List (String × BookPosition K)) (fill : ResearchFill K) :
    Option (List (String × BookPosition K)) :=
  match find fill.symbol stub.lotInfo with
  | none => none
  | some info =>
    let multiplier := math.decimal info.multiplier
    let book := (find fill.symbol positions).getD {}
    match fill.action with
    | .openLong =>
      let totalQuantity := book.quantity + fill.quantity
      let averagePrice :=
        (book.averagePrice * (book.quantity : K) + fill.price * (fill.quantity : K)) /
          (totalQuantity : K)
      let opened : BookPosition K :=
        if book.quantity = 0 then
          { book with openedOn := some stub.businessDate, highWaterPrice := fill.price }
        else book
      some (assign fill.symbol { opened with
          averagePrice
          quantity := totalQuantity
          highWaterPrice := pyMax opened.highWaterPrice fill.price } positions)
    | .closeLong =>
      if book.quantity < fill.quantity then none
      else
        let closed : BookPosition K :=
          { book with
            realizedPnl := book.realizedPnl +
              (fill.price - book.averagePrice) * (fill.quantity : K) * multiplier
            quantity := book.quantity - fill.quantity }
        some (assign fill.symbol (if closed.quantity = 0 then
            { closed with averagePrice := 0, openedOn := none, highWaterPrice := 0 }
          else closed) positions)
    | _ => none

/-- After a decision a held position is marked at its execution price. -/
def replayRaise (math : PipelineMath K F) (stub : ResumeReplayStub F)
    (entry : String × BookPosition K) : String × BookPosition K :=
  if 0 < entry.2.quantity then
    (entry.1, { entry.2 with
      highWaterPrice := pyMax entry.2.highWaterPrice
        (math.decimal ((find entry.1 stub.executionPrices).getD 0)) })
  else entry

def replayDecision (math : PipelineMath K F) (stub : ResumeReplayStub F)
    (positions : List (String × BookPosition K)) (decision : DecisionBundle ω K F) :
    Option (List (String × BookPosition K)) := do
  let marked ← positions.mapM (replayMark math stub)
  let filled ← decision.fills.foldlM (replayFill math stub) marked
  some (filled.map (replayRaise math stub))

def replayBook (math : PipelineMath K F) :
    List (DecisionBundle ω K F) → List (ResumeReplayStub F) → List (String × BookPosition K) →
      Option (List (String × BookPosition K))
  | [], _, positions => some positions
  | _ :: _, [], _ => none
  | decision :: completed, stub :: stubs, positions => do
    let after ← replayDecision math stub positions decision
    replayBook math completed stubs after

def recordedPositions (last : DecisionBundle ω K F) : List (String × ResearchPosition K) :=
  last.positions.foldl (fun recorded position => assign position.symbol position recorded) []

def matchesRecord (math : PipelineMath K F) (last : DecisionBundle ω K F)
    (entry : String × BookPosition K) : Bool :=
  let book := entry.2
  match find entry.1 (recordedPositions last) with
  | none => !(book.quantity != 0 || book.realizedPnl != 0)
  | some position =>
    book.quantity == position.quantity && book.averagePrice == position.averagePrice &&
      book.realizedPnl == position.realizedPnl &&
        book.openedOn == find entry.1 last.riskState.openedOn &&
          (book.quantity ≤ 0 || (find entry.1 last.riskState.highWaterPrices).any
              (math.float book.highWaterPrice == ·))

def verifyResumeState (math : PipelineMath K F) (last : DecisionBundle ω K F)
    (positions : List (String × BookPosition K)) : Bool :=
  positions.all (matchesRecord math last) &&
    (recordedPositions last).all fun entry => entry.1 ∈ positions.map (·.1)

def pipelineStateFromResume (math : PipelineMath K F) (completed : List (DecisionBundle ω K F))
    (stubs : List (ResumeReplayStub F)) : Option (PipelineState K) := do
  let last ← completed.getLast?
  let positions ← replayBook math completed stubs []
  if verifyResumeState math last positions then
    some
      { cash := last.ledger.cash
        positions
        feesPaid := last.ledger.feesPaid
        taxPaid := last.ledger.taxPaid
        slippagePaid := last.ledger.slippagePaid
        fillShortfall := last.ledger.fillShortfall
        cooldownUntil := last.riskState.cooldownUntil
        equityHighWater := last.riskState.portfolioEquityHighWater
        portfolioPaused := last.riskState.portfolioPaused }
  else none

/-- The completed decisions are those of the first inputs, in the order of their times. -/
def alignedWith (previousAt : Option ℤ) :
    List (DecisionBundle ω K F) → List (ResumeReplayStub F) → Bool
  | [], _ => true
  | _ :: _, [] => false
  | decision :: completed, stub :: stubs =>
    previousAt.all (· < decision.decisionAt) && stub.businessDate == decision.businessDate &&
      stub.decisionAt == decision.decisionAt &&
        alignedWith (some decision.decisionAt) completed stubs

namespace PortfolioPipelineAdapter

/-- `resume_from`: a refused seed leaves the adapter as it is. -/
def resumeFrom (math : PipelineMath K F) (adapter : PortfolioPipelineAdapter α ω K F)
    (completed : List (DecisionBundle ω K F)) : Bool × PortfolioPipelineAdapter α ω K F :=
  if adapter.resumeBundles.isSome || completed.isEmpty then (false, adapter)
  else if adapter.validationInputs.length < completed.length then (false, adapter)
  else if alignedWith none completed adapter.validationInputs then
    match pipelineStateFromResume math completed adapter.validationInputs with
    | none => (false, adapter)
    | some seeded =>
      (true, { adapter with resumeBundles := some completed, resumeState := some seeded })
  else (false, adapter)

/-- `decisions`: the seed as it is, and then the decisions on the remaining inputs. -/
def decisions (setup : PipelineSetup α ω K F) (adapter : PortfolioPipelineAdapter α ω K F) :
    List (DecisionBundle ω K F) × Option PipelineError :=
  let state := adapter.resumeState.getD (initialState setup.initialCapital)
  let seeds := adapter.resumeBundles.getD []
  let later := Runs.outputs (buildDecision setup) seeds.length state (adapter.inputsFrom seeds.length)
  (seeds ++ later.1, later.2)

end PortfolioPipelineAdapter

end FinDashboard.Portfolio
