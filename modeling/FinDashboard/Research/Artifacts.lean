import FinDashboard.Research.Rebuild

/-!
# Records come back from their payloads

Each record is rebuilt as it was from its payload with the keys in order, which is what reading its
canonical text gives.
-/

namespace FinDashboard.Research

open List Encode Decode Ledger

open FinDashboard.Text (Date DateTime Decimal Json PyFloat)
open Decode

variable {α : Type} {label : String}

@[simp] theorem ok_bind {β : Type} (value : α) (next : α → Rebuilt β) :
    (Except.ok value >>= next) = next value := rfl

/-- A field of an object whose keys were put in order. -/
theorem field_sorted {fields : List (String × Json)} (apart : (fields.map (·.1)).Nodup)
    (label key : String) : field label key (Json.sortFields (Json.sortedFields fields)) =
      match find key fields with
      | some value => .ok value.sorted
      | none => .error (.missingField label key) := by
  unfold field
  rw [Json.find_sorted apart]
  cases find key fields <;> rfl

@[simp] theorem string_encode (value : String) :
    Decode.string label (Encode.string value).sorted = .ok value := rfl

@[simp] theorem bool_encode (value : Bool) :
    bool label (bool value).sorted = .ok value := rfl

@[simp] theorem int_encode (value : ℤ) :
    int label (int value).sorted = .ok value := rfl

@[simp] theorem float_encode (value : PyFloat) :
    Decode.float label (Encode.float value).sorted = .ok value := rfl

@[simp] theorem decimal_encode (value : Decimal) :
    Decode.decimal label (Encode.decimal value).sorted = .ok value := by
  simp [Decode.decimal, Encode.decimal, Json.sorted, Decode.string, readText, Decimal.read_str]

@[simp] theorem date_encode (value : Date) :
    Decode.date label (Encode.date value).sorted = .ok value := by
  simp [Decode.date, Encode.date, Json.sorted, Decode.string, readText, Date.fromisoformat_isoformat]

@[simp] theorem datetime_encode (value : DateTime) :
    Decode.datetime label (Encode.datetime value).sorted = .ok value := by
  simp [Decode.datetime, Encode.datetime, Json.sorted, Decode.string, readText,
    DateTime.fromisoformat_isoformat]

@[simp] theorem optional_string_encode (value : Option String) :
    optional (Decode.string label) (optional Encode.string value).sorted = .ok value := by
  cases value <;> rfl

@[simp] theorem optional_float_encode (value : Option PyFloat) :
    optional (Decode.float label) (optional Encode.float value).sorted = .ok value := by
  cases value <;> rfl

@[simp] theorem positionSide_encode (side : ResearchPositionSide) :
    positionSide label (Encode.string side.value).sorted = .ok side := by
  cases side <;> rfl

@[simp] theorem fillAction_encode (action : ResearchFillAction) :
    fillAction label (Encode.string action.value).sorted = .ok action := by
  cases action <;> rfl

@[simp] theorem orderStatus_encode (status : ResearchOrderStatus) :
    orderStatus label (Encode.string status.value).sorted = .ok status := by
  cases status <;> rfl

@[simp] theorem list_encode (encode : α → Json) (values : List α) :
    list label (list encode values).sorted =
      .ok (Json.sortedItems (values.map encode)) := rfl

variable {decode : String → Json → Rebuilt α} {encode : α → Json}

theorem items_encode (back : ∀ label value, decode label (encode value).sorted = .ok value)
    (label : String) (position : ℕ) (values : List α) :
    items decode label position (Json.sortedItems (values.map encode)) = .ok values := by
  induction values generalizing position with
  | nil => rfl
  | cons value values ih =>
    rw [map_cons, Json.sortedItems, items, back, ih]
    rfl

@[simp] theorem strings_encode (values : List String) :
    strings label (list Encode.string values).sorted = .ok values := by
  rw [strings, list_encode]
  exact items_encode (fun _ _ => rfl) label 0 values

/-- The entries of a dictionary are in order already. -/
theorem sortFields_dict (encode : α → Json) (dict : TextDict α) :
    Json.sortFields (Json.sortedFields (dict.entries.map fun entry => (entry.1, encode entry.2))) =
      dict.entries.map fun entry => (entry.1, (encode entry.2).sorted) := by
  rw [Json.sortedFields_eq_map, map_map]
  have ordered := pairwise_map.mp dict.ordered
  apply List.Pairwise.insertionSort_eq
  rw [pairwise_map]
  exact ordered.imp fun before => le_of_lt before

theorem entries_encode (back : ∀ label value, decode label (encode value).sorted = .ok value)
    (label : String) (values : List (String × α)) :
    entries decode label (values.map fun entry => (entry.1, (encode entry.2).sorted)) =
      .ok values := by
  induction values with
  | nil => rfl
  | cons entry values ih =>
    rw [map_cons, entries, back, ih]
    rfl

theorem dict_encode (back : ∀ label value, decode label (encode value).sorted = .ok value)
    (dict : TextDict α) : Decode.dict decode label (Encode.dict encode dict).sorted = .ok dict := by
  have ordered := sortFields_dict encode dict
  simp only [Decode.dict, Encode.dict, Json.sorted, mapping, ordered, ok_bind,
    entries_encode back, TextDict.ofEntries_entries]

@[simp] theorem dict_date_encode (dict : TextDict Date) :
    Decode.dict Decode.date label (Encode.dict Encode.date dict).sorted = .ok dict :=
  dict_encode (fun _ => date_encode) dict

@[simp] theorem dict_float_encode (dict : TextDict PyFloat) :
    Decode.dict Decode.float label (Encode.dict Encode.float dict).sorted = .ok dict :=
  dict_encode (fun _ => float_encode) dict

theorem rebuildCandidate_toJson (label : String) (item : UniverseCandidate) :
    rebuildCandidate label item.toJson.sorted = .ok item := by
  simp [rebuildCandidate, UniverseCandidate.toJson, Json.sorted, mapping, field_sorted,
    find, item.explained]

theorem rebuildFeature_toJson (label : String) (item : FeatureValue) :
    rebuildFeature label item.toJson.sorted = .ok item := by
  simp [rebuildFeature, FeatureValue.toJson, Json.sorted, mapping, field_sorted, find, item.valid.2]
  exact dif_pos item.valid.1

theorem rebuildSignal_toJson (label : String) (item : NormalizedSignal) :
    rebuildSignal label item.toJson.sorted = .ok item := by
  simp [rebuildSignal, NormalizedSignal.toJson, Json.sorted, mapping, field_sorted,
    find, item.valid]

theorem ofFields_self (item : TargetPosition) :
    TargetPosition.ofFields item.symbol item.weight item.positionSide = .ok item := by
  obtain ⟨symbol, weight, side, signed⟩ := item
  cases side with
  | long => exact dif_pos signed
  | short => exact dif_pos signed

theorem rebuildTarget_toJson (label : String) (item : TargetPosition) :
    rebuildTarget label item.toJson.sorted = .ok item := by
  simp [rebuildTarget, TargetPosition.toJson, Json.sorted, mapping, field_sorted, find,
    ofFields_self]

theorem rebuildTargets_encode (label : String) (targets : List TargetPosition) :
    rebuildTargets label (list TargetPosition.toJson targets).sorted = .ok targets := by
  rw [rebuildTargets, list_encode]
  exact items_encode rebuildTarget_toJson _ 0 targets

theorem rebuildRiskExit_toJson (label : String) (item : RiskExitOutcome) :
    rebuildRiskExit label item.toJson.sorted = .ok item := by
  simp [rebuildRiskExit, RiskExitOutcome.toJson, Json.sorted, mapping, field_sorted, find,
    item.valid.1, item.valid.2.2.2]
  exact dif_pos ⟨item.valid.2.1, item.valid.2.2.1⟩

theorem rebuildRiskState_toJson (label : String) (item : ResearchRiskState) :
    rebuildRiskState label item.toJson.sorted = .ok item := by
  simp [rebuildRiskState, ResearchRiskState.toJson, Json.sorted, mapping, field_sorted, find]
  exact dif_pos item.valid

theorem rebuildTier_toJson (label : String) (item : CapitalTierOutcome) :
    rebuildTier label item.toJson.sorted = .ok item := by
  simp [rebuildTier, CapitalTierOutcome.toJson, Json.sorted, mapping, field_sorted,
    find, item.valid]

theorem rebuildInstruction_toJson (label : String) (item : RebalanceInstruction) :
    rebuildInstruction label item.toJson.sorted = .ok item := by
  simp [rebuildInstruction, RebalanceInstruction.toJson, Json.sorted, mapping, field_sorted,
    find, item.valid]

theorem rebuildOrder_toJson (label : String) (item : ResearchOrder) :
    rebuildOrder label item.toJson.sorted = .ok item := by
  simp [rebuildOrder, ResearchOrder.toJson, Json.sorted, mapping, field_sorted, find,
    item.valid.1, item.valid.2.1]
  exact dif_pos item.valid.2.2

theorem rebuildFill_toJson (label : String) (item : ResearchFill) :
    rebuildFill label item.toJson.sorted = .ok item := by
  simp [rebuildFill, ResearchFill.toJson, Json.sorted, mapping, field_sorted, find, item.valid]

theorem rebuildPosition_toJson (label : String) (item : ResearchPosition) :
    rebuildPosition label item.toJson.sorted = .ok item := by
  simp [rebuildPosition, ResearchPosition.toJson, Json.sorted, mapping, field_sorted,
    find, item.valid]

theorem rebuildLedger_toJson (label : String) (item : LedgerSnapshot) :
    rebuildLedger label item.toJson.sorted = .ok item := by
  simp [rebuildLedger, LedgerSnapshot.toJson, Json.sorted, mapping, field_sorted, find, item.valid]

theorem rebuildEvidence_toJson (label : String) (item : ResearchPipelineEvidence) :
    rebuildEvidence label item.toJson.sorted = .ok item := by
  simp [rebuildEvidence, ResearchPipelineEvidence.toJson, Json.sorted, mapping, field_sorted,
    find, item.named]

theorem rebuildConstraint_toJson (label : String) (item : ConstraintOutcome) :
    rebuildConstraint label item.toJson.sorted = .ok item := by
  obtain ⟨constraint, passed, beforeValue, afterValue, limit, reason, hard, symbol, explained⟩ := item
  cases symbol with
  | none =>
    simp [rebuildConstraint, ConstraintOutcome.toJson, Json.sorted, mapping, field_sorted,
      find, Json.find_sorted, explained]
    rfl
  | some symbol =>
    simp [rebuildConstraint, ConstraintOutcome.toJson, Json.sorted, mapping, field_sorted,
      find, Json.find_sorted, explained]
    rfl

/-!
## The artifacts of a decision

A decision is kept as one artifact a stage, each with the canonical text of its payload and the
checksum of that text. The decision is rebuilt from the artifacts as it was.
-/

def joinFields : List (List Char) → List Char
  | [] => [Text.closeBrace]
  | part :: rest => part ++ joinMore rest
where
  joinMore : List (List Char) → List Char
    | [] => [Text.closeBrace]
    | part :: rest => ',' :: (part ++ joinMore rest)

def canonicalField (fragments : List (String × List Char)) (field : String × Json) : Option (List Char) :=
  ((find field.1 fragments).or field.2.dumps).map fun text =>
    Json.stringLiteral field.1 ++ ':' :: text

/-- `canonical_json_text`: the fields of a payload in the order of their keys. -/
def canonicalJsonText (fragments : List (String × List Char)) (payload : List (String × Json)) :
    Option (List Char) :=
  ((Json.sortFields payload).mapM (canonicalField fragments)).map fun parts =>
    Text.openBrace :: joinFields parts

/-- Fragments of a payload: each is the canonical text of the section it stands for. -/
def Canonical (fragments : List (String × List Char)) (payload : List (String × Json)) : Prop :=
  ∀ field ∈ payload, ∀ text, find field.1 fragments = some text → field.2.dumps = some text

section CanonicalText

variable {fragments : List (String × List Char)} {fields payload : List (String × Json)}

theorem canonicalField_eq {field : String × Json}
    (canonical : ∀ text, find field.1 fragments = some text → field.2.dumps = some text) :
    canonicalField fragments field =
      field.2.dumps.map fun text => Json.stringLiteral field.1 ++ ':' :: text := by
  unfold canonicalField
  cases found : find field.1 fragments with
  | none => rfl
  | some text =>
    rw [canonical text found]
    rfl

/-- The texts of all fields, unless one of them has none. -/
theorem mapM_canonicalField (canonical : Canonical fragments fields) :
    fields.mapM (canonicalField fragments) = if Json.fieldsFinite fields then
        some (fields.map fun field => Json.stringLiteral field.1 ++ ':' :: field.2.sorted.text)
      else none := by
  induction fields with
  | nil => rfl
  | cons field fields ih =>
    have first := canonicalField_eq (canonical field mem_cons_self)
    have others := ih fun field member => canonical field (mem_cons_of_mem _ member)
    rw [mapM_cons, first, others, Json.fieldsFinite, Json.dumps]
    cases field.2.isFinite <;> cases Json.fieldsFinite fields <;> rfl

theorem joinMore_texts (fields : List (String × Json)) : joinFields.joinMore (fields.map fun field =>
      Json.stringLiteral field.1 ++ ':' :: field.2.text) = Json.moreFieldsText fields := by
  induction fields with
  | nil => rfl
  | cons field fields ih =>
    rw [map_cons, joinFields.joinMore, ih, Json.moreFieldsText, append_assoc, cons_append]

theorem joinFields_texts (fields : List (String × Json)) :
    joinFields (fields.map fun field => Json.stringLiteral field.1 ++ ':' :: field.2.text) =
      Json.fieldsText fields := by
  cases fields with
  | nil => rfl
  | cons field fields =>
    rw [map_cons, joinFields, joinMore_texts, Json.fieldsText, append_assoc, cons_append]

theorem fieldsFinite_sortFields (fields : List (String × Json)) :
    Json.fieldsFinite (Json.sortFields fields) = Json.fieldsFinite fields := by
  rw [Json.fieldsFinite_eq_all, Json.fieldsFinite_eq_all]
  exact (perm_insertionSort _ fields).all_eq

theorem canonicalJsonText_eq_dumps (canonical : Canonical fragments payload) :
    canonicalJsonText fragments payload = (Json.obj payload).dumps := by
  have each : Canonical fragments (Json.sortFields payload) :=
    fun field member => canonical field ((mem_insertionSort _).mp member)
  have texts := joinFields_texts
    ((Json.sortFields payload).map fun field => (field.1, field.2.sorted))
  rw [map_map] at texts
  unfold canonicalJsonText
  rw [mapM_canonicalField each, fieldsFinite_sortFields, Json.dumps, Json.isFinite, Json.sorted, Json.text,
    Json.sortFields_sortedFields]
  cases Json.fieldsFinite payload with
  | false => rfl
  | true => exact congrArg some (congrArg (cons Text.openBrace) texts)

/-- Payloads have one text, whichever of their sections were encoded before, exactly when they are the same
with their keys in order. -/
theorem canonicalJsonText_eq_iff {fragments' : List (String × List Char)} {payload' : List (String × Json)}
    (canonical : Canonical fragments payload) (canonical' : Canonical fragments' payload')
    (finite : (Json.obj payload).isFinite) :
    canonicalJsonText fragments payload = canonicalJsonText fragments' payload' ↔
      (Json.obj payload).sorted = (Json.obj payload').sorted := by
  rw [canonicalJsonText_eq_dumps canonical, canonicalJsonText_eq_dumps canonical', Json.dumps_eq_iff finite]

theorem canonicalJsonText_eq_iff_reordered :
    canonicalJsonText [("a", "null".toList)] [("b", .int 1), ("a", .null)] =
      canonicalJsonText [] [("a", .null), ("b", .int 1)] ↔
    (Json.obj [("b", .int 1), ("a", .null)]).sorted = (Json.obj [("a", .null), ("b", .int 1)]).sorted :=
  canonicalJsonText_eq_iff (by simp +contextual [Canonical, find, Json.dumps, Json.isFinite, Json.sorted, Json.text])
    (by simp [Canonical, find]) (by decide)

end CanonicalText

structure ResearchArtifact where
  artifactId : String
  runId : String
  decisionId : Option String
  sequence : ℕ
  stage : ResearchRunStage
  traceId : String
  parentTraceIds : List String
  payloadJson : List Char
  checksum : String
deriving DecidableEq

def decisionStages : List ResearchRunStage :=
  [ .universe, .features, .signals, .targetsBeforeConstraints, .constraints,
    .targetsAfterConstraints, .riskExits, .targetsAfterRisk, .capitalFeasibility, .rebalancePlan,
    .orders, .fills, .ledger ]

def indexText (decisionIndex : ℕ) : String := String.ofList (Text.padded 8 decisionIndex)

def expectedDecisionId (runId : String) (decisionIndex : ℕ) : String :=
  runId ++ ":D:" ++ indexText decisionIndex

/-- `_with_decision_id`: a decision may already carry the id of its place, and no other. -/
def withDecisionId (runId : String) (decisionIndex : ℕ) (decision : DecisionBundle) :
    Option DecisionBundle :=
  if decision.decisionId ≠ "" ∧ decision.decisionId ≠ expectedDecisionId runId decisionIndex then
    none
  else some { decision with decisionId := expectedDecisionId runId decisionIndex }

section Persist

variable (sha256 : List Char → String) (runId : String) (decisionIndex : ℕ)

def stableSuffix (stage : ResearchRunStage) : String := indexText decisionIndex ++ ":" ++ stage.value

def traceId (stage : ResearchRunStage) : String :=
  "RRT-" ++ String.ofList
    ((sha256 (Json.stringLiteral (stableSuffix decisionIndex stage))).toList.take 24)

def artifactOf (decision : DecisionBundle) (fragments : List (String × List Char)) (offset : ℕ)
    (parents : List String) (stage : ResearchRunStage) : Option ResearchArtifact :=
  (canonicalJsonText fragments (decision.artifactFields stage)).map fun text =>
    { artifactId := runId ++ ":A:" ++ stableSuffix decisionIndex stage
      runId := runId
      decisionId := some decision.decisionId
      sequence := decisionIndex * decisionStages.length + offset
      stage := stage
      traceId := traceId sha256 decisionIndex stage
      parentTraceIds := parents
      payloadJson := text
      checksum := sha256 text }

def artifactsFrom (decision : DecisionBundle) (fragments : List (String × List Char)) :
    (offset : ℕ) → (parents : List String) → List ResearchRunStage → Option (List ResearchArtifact)
  | _, _, [] => some []
  | offset, parents, stage :: rest => do
    let artifact ← artifactOf sha256 runId decisionIndex decision fragments offset parents stage
    let others ← artifactsFrom decision fragments (offset + 1) [artifact.traceId] rest
    some (artifact :: others)

/-- What `_persist_decision` appends for a decision. -/
def decisionArtifacts (decision : DecisionBundle) (fragments : List (String × List Char)) :
    Option (List ResearchArtifact) :=
  artifactsFrom sha256 runId decisionIndex decision fragments 0 [] decisionStages

end Persist

end FinDashboard.Research
