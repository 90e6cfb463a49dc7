import FinDashboard.Research.Prefix
import FinDashboard.Research.Validator
import FinDashboard.Runs.Recorded

/-!
# The execution of a research run

The coordinator takes the decisions of an adapter one by one: it validates each, appends its
artifacts to the store, and at the end appends the report and saves the checksum of all artifacts.
Every write can be the last one before the execution is stopped.
-/

namespace FinDashboard.Research

open FinDashboard.Text (Date Decimal Json)
open FinDashboard.Runs

inductive ResearchRunStatus
  | queued
  | running
  | completed
  | rejected
  | failed
  | interrupted
  | cancelled
deriving DecidableEq, Repr

namespace ResearchRunStatus

/-- `_TRANSITIONS`: where a run can go from a status. -/
def targets : ResearchRunStatus → List ResearchRunStatus
  | .queued => [.running, .rejected, .cancelled]
  | .running => [.completed, .failed, .interrupted, .rejected, .cancelled]
  | .interrupted => [.running, .cancelled]
  | .failed => [.running, .cancelled]
  | .completed => []
  | .rejected => []
  | .cancelled => []

end ResearchRunStatus

structure RunStore where
  status : ResearchRunStatus
  artifacts : List ResearchArtifact
  resultChecksum : Option String

/-- `append_artifact`: an artifact that is there with the same checksum is left as it is; another
checksum and a sequence that is taken are conflicts. -/
def RunStore.appendArtifact (artifact : ResearchArtifact) (store : RunStore) : Option RunStore :=
  (appendRow (·.artifactId) (·.sequence) (fun old new => old.checksum = new.checksum)
    store.artifacts artifact).map fun artifacts => { store with artifacts := artifacts }

/-- `save_result`: another checksum than the one saved is a conflict. -/
def RunStore.saveResult (checksum : String) (store : RunStore) : Option RunStore :=
  if store.resultChecksum.any (· ≠ checksum) then none
  else some { store with resultChecksum := some checksum }

/-- `_stable_decision_suffix`: the part of an id after the run. -/
def stableDecisionSuffix (decisionId : String) : String :=
  match decisionId.splitOn ":D:" with
  | _ :: suffix :: rest => ":D:".intercalate (suffix :: rest)
  | _ => decisionId

/-- The fields of an artifact that the result checksum covers. -/
def digestJson (artifact : ResearchArtifact) : Json :=
  .obj
    [ ("stage", .str artifact.stage.value),
      ("decision_id", Encode.optional Encode.string (artifact.decisionId.map stableDecisionSuffix)),
      ("checksum", .str artifact.checksum) ]

/-- The checksum of the artifacts in the order of their sequence; no digest holds a float. -/
def resultChecksum (sha256 : List Char → String) (artifacts : List ResearchArtifact) : String :=
  let ordered := artifacts.insertionSort fun first second => first.sequence ≤ second.sequence
  sha256 (Json.arr (ordered.map digestJson)).sorted.text

structure ResearchRunManifest where
  runId : String
  inputChecksum : String
  strategyKind : String
  executionMode : String

/-- `decision_ledger_record`: what is kept of a decision once it is persisted. -/
structure DecisionLedgerRecord where
  businessDate : Date
  decisionId : String
  ledger : LedgerSnapshot
  constraints : List ConstraintOutcome
  orders : List ResearchOrder
  fills : List ResearchFill
  positions : List ResearchPosition

def decisionLedgerRecord (decision : DecisionBundle) : DecisionLedgerRecord where
  businessDate := decision.businessDate
  decisionId := decision.decisionId
  ledger := decision.ledger
  constraints := decision.constraints
  orders := decision.orders
  fills := decision.fills
  positions := decision.positions

/-- A report: the fields that are compared with the ledger, and the payload of all its fields. -/
structure ResearchRunReport where
  strategyKind : String
  decisionCount : ℕ
  orderCount : ℕ
  fillCount : ℕ
  executionMode : String
  curveEquities : List Decimal
  finalEquity : Decimal
  finalCash : Decimal
  commissionPaid : Decimal
  taxPaid : Decimal
  slippagePaid : Decimal
  fillShortfall : Decimal
  accountingInvariantsPassed : Bool
  payload : List (String × Json)

/-- Why an execution ends early: the exceptions that have a handler of their own, and any other. -/
inductive RunError
  | unsupported
  | constraintViolation
  | interrupted
  | other
deriving DecidableEq, Repr

/-- A decision an adapter yields, with the fragments it carries. -/
structure Yielded where
  decision : DecisionBundle
  fragments : List (String × List Char)

/-- What a deterministic adapter does: the decisions it yields, how it ends, and its report. -/
structure Behaviour where
  decisions : List Yielded
  ending : Option RunError
  buildReport : List DecisionLedgerRecord → Except RunError ResearchRunReport
  /-- `compute_partial_evidence` after a number of completed decisions. -/
  partialEvidence : ℕ → Option (List (String × Json))

structure Adapter where
  validateManifest : Option RunError
  fresh : Behaviour
  /-- `resume_from`: what the adapter does after it accepts a prefix. -/
  resumeFrom : List DecisionBundle → Option Behaviour

def sameNumber (first second : Decimal) : Bool :=
  match Amount.ofDecimal first, Amount.ofDecimal second with
  | some first, some second => first = second
  | _, _ => false

def validateReport (manifest : ResearchRunManifest) (records : List DecisionLedgerRecord)
    (report : ResearchRunReport) : Bool :=
  report.strategyKind = manifest.strategyKind &&
  report.decisionCount = records.length &&
  report.orderCount = (records.map (·.orders.length)).sum &&
  report.fillCount = (records.map (·.fills.length)).sum &&
  report.executionMode = manifest.executionMode &&
  (match records.getLast? with
    | none => true
    | some last =>
      (match report.curveEquities.getLast? with
        | some equity => sameNumber report.finalEquity equity
        | none => sameNumber report.finalEquity last.ledger.equity) &&
      sameNumber report.finalCash last.ledger.cash &&
      sameNumber report.commissionPaid last.ledger.feesPaid &&
      sameNumber report.taxPaid last.ledger.taxPaid &&
      sameNumber report.slippagePaid last.ledger.slippagePaid &&
      sameNumber report.fillShortfall last.ledger.fillShortfall) &&
  report.accountingInvariantsPassed

namespace ValidationError

/-- The checks that raise a constraint violation; a value without a text and an undefined decimal
raise other exceptions. -/
def toRunError : ValidationError → RunError
  | .missingEvidence | .unsupportedPipeline | .foreignManifest | .outputMismatch
  | .missingConstraints | .hardStatusMismatch | .hardConstraintFailed | .incompleteTiers
  | .differentTierInputs | .unknownSignal | .unexplainedTarget => .constraintViolation
  | _ => .other

end ValidationError

section Execution

variable (sha256 : List Char → String) (manifest : ResearchRunManifest)

/-- The artifact of the report; its checksum does not cover what marks it as partial. -/
def reportArtifact (decisionCount : ℕ) (report : ResearchRunReport)
    (partialFailure : Option (List (String × Json))) : Option ResearchArtifact := do
  let checksum ← stableChecksum sha256 (.obj [("report", .obj report.payload)])
  let payload := match partialFailure with
    | none => report.payload
    | some marker => Ledger.assign "constraint_failure" (.obj marker)
        (Ledger.assign "partial" (.bool true) report.payload)
  let text ← (Json.obj [("report", .obj payload)]).dumps
  some
    { artifactId := manifest.runId ++ ":A:report"
      runId := manifest.runId
      decisionId := none
      sequence := decisionCount * decisionStages.length
      stage := .report
      traceId := "RRT-" ++ String.ofList ((sha256 (Json.stringLiteral "report")).toList.take 24)
      parentTraceIds := []
      payloadJson := text
      checksum := checksum }

/-- What the coordinator makes of a decision before it writes: it names it, validates it and puts
its artifacts together. -/
def prepareDecision (index : ℕ) (state : ValidatorState) (yielded : Yielded) :
    Except RunError (DecisionBundle × ValidatorState × List ResearchArtifact) :=
  match withDecisionId manifest.runId index yielded.decision with
  | none => .error .other
  | some decision =>
    match decision.validate sha256 manifest.inputChecksum state with
    | .error error => .error error.toRunError
    | .ok next =>
      match decisionArtifacts sha256 manifest.runId index decision yielded.fragments with
      | none => .error .other
      | some artifacts => .ok (decision, next, artifacts)

abbrev Execution (α : Type) := Recording RunStore α

def appendArtifacts : List ResearchArtifact → Execution Bool
  | [] => pure true
  | artifact :: rest => do
    if ← Recording.tryWrite (RunStore.appendArtifact artifact) then appendArtifacts rest
    else pure false

/-- The decision loop: the records of the decisions it has persisted, and why it ends. -/
def runDecisions (ending : Option RunError) :
    (index : ℕ) → ValidatorState → List DecisionLedgerRecord → List Yielded →
      Execution (List DecisionLedgerRecord × Option RunError)
  | _, _, records, [] => pure (records, ending)
  | index, state, records, yielded :: rest =>
    match prepareDecision sha256 manifest index state yielded with
    | .error error => pure (records, some error)
    | .ok (decision, next, artifacts) => do
      if ← appendArtifacts artifacts then
        runDecisions ending (index + 1) next (records ++ [decisionLedgerRecord decision]) rest
      else pure (records, some .other)

/-- `_safe_terminal_transition`: go to a status that can be reached from the present one. -/
def safeTerminalTransition (target : ResearchRunStatus) : Execution Unit := do
  let store ← Recording.read
  if target ∈ store.status.targets then
    Recording.write fun store => { store with status := target }
  else pure ()

/-- Append the report and save the checksum of all artifacts, unless that is refused. -/
def persistReport (artifact : ResearchArtifact) (accept : String → Bool) :
    Execution (Option Bool) := do
  if ← Recording.tryWrite (RunStore.appendArtifact artifact) then
    let store ← Recording.read
    let checksum := resultChecksum sha256 store.artifacts
    if accept checksum then
      let saved ← Recording.tryWrite (RunStore.saveResult checksum)
      pure (some saved)
    else pure none
  else pure (some false)

/-- The report of an execution that ends with a constraint violation, where the adapter has
evidence of the decisions before it; a failure on the way is passed over. -/
def partialReport (behaviour : Behaviour) (records : List DecisionLedgerRecord) :
    Option ResearchArtifact :=
  match behaviour.partialEvidence records.length with
  | none => none
  | some marker =>
    match behaviour.buildReport records with
    | .error _ => none
    | .ok report =>
      if validateReport manifest records report then
        reportArtifact sha256 manifest records.length report (some marker)
      else none

def handleError (behaviour : Behaviour) (records : List DecisionLedgerRecord) :
    RunError → Execution Unit
  | .unsupported => safeTerminalTransition .rejected
  | .constraintViolation =>
    match partialReport sha256 manifest behaviour records with
    | none => safeTerminalTransition .rejected
    | some artifact => do
      let _ ← persistReport sha256 artifact fun _ => true
      safeTerminalTransition .rejected
  | .interrupted => safeTerminalTransition .interrupted
  | .other => safeTerminalTransition .failed

def finalReport (behaviour : Behaviour) (records : List DecisionLedgerRecord) :
    Except RunError ResearchArtifact :=
  match behaviour.buildReport records with
  | .error error => .error error
  | .ok report =>
    if validateReport manifest records report then
      match reportArtifact sha256 manifest records.length report none with
      | none => .error .other
      | some artifact => .ok artifact
    else .error .other

def finish (expectedResultChecksum : Option String) (behaviour : Behaviour)
    (records : List DecisionLedgerRecord) : Execution Unit :=
  match finalReport sha256 manifest behaviour records with
  | .error error => handleError sha256 manifest behaviour records error
  | .ok artifact => do
    let accepts := fun checksum => expectedResultChecksum.all (· = checksum)
    match ← persistReport sha256 artifact accepts with
    | some true => Recording.write fun store => { store with status := .completed }
    | some false => handleError sha256 manifest behaviour records .other
    | none => safeTerminalTransition .failed

def executeBehaviour (expectedResultChecksum : Option String) (behaviour : Behaviour) :
    Execution Unit := do
  let ended ← runDecisions sha256 manifest behaviour.ending 0
    { positionQuantities := [], seenFillIds := [] } [] behaviour.decisions
  match ended.2 with
  | none => finish sha256 manifest expectedResultChecksum behaviour ended.1
  | some error => handleError sha256 manifest behaviour ended.1 error

/-- `_offer_resume`: the completed decisions are offered to the adapter. -/
def offerResume (adapter : Adapter) (completed : List DecisionBundle) : Behaviour :=
  if completed = [] then adapter.fresh else (adapter.resumeFrom completed).getD adapter.fresh

/-- `execute`: a run that is over or running is left as it is. -/
def execute (adapter : Adapter) (expectedResultChecksum : Option String) : Execution Unit := do
  let store ← Recording.read
  if store.status ∈ [.queued, .interrupted, .failed] then
    match adapter.validateManifest with
    | some error => handleError sha256 manifest adapter.fresh [] error
    | none => do
      Recording.write fun store => { store with status := .running }
      let store ← Recording.read
      let completed := completedPrefix sha256 manifest.runId (store.artifacts.insertionSort
        fun first second => first.sequence ≤ second.sequence)
      executeBehaviour sha256 manifest expectedResultChecksum (offerResume adapter completed)
  else pure ()

end Execution

end FinDashboard.Research
