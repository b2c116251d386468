import Bdp.Recovery.Tables
import Bdp.Transaction.Groups

/-!
# Transaction evaluation

The operations of one transaction run in order over the staged tables. Each effective Resource
operation records the final image of what it changed and the events that it induced. What a single
mutation, an alias operation or a selection decides is a parameter: the results about transactions
hold whatever they decide.
-/

namespace Bdp.Transaction

open Recovery (StoredResource)

/-- The tables that a transaction reads and writes. -/
structure Tables where
  resources : Table StoredResource
  /-- Every identity that was ever committed. -/
  identities : Table Unit
  aliases : Table String
  deriving DecidableEq

namespace Tables

/-- A written row of a known identity keeps its kind and its endpoint columns. -/
def putResource (tables : Tables) (resource : StoredResource) : Tables :=
  { tables with
    identities := tables.identities.insert resource.id ()
    resources := tables.resources.insert resource.id
      (match tables.resources[resource.id]? with
        | some old => { old with bodyJson := resource.bodyJson }
        | none => resource) }

def deleteResource (tables : Tables) (id : String) : Tables :=
  { tables with resources := tables.resources.erase id }

end Tables

inductive ResourceOperation where
  | createBead
  | createLink
  | updateBead
  | updateLink
  | deleteBead
  | deleteLink
  deriving DecidableEq, Repr

structure BatchProblem where
  type : String
  status : ℕ
  code : String
  retry : String
  limit : Option String
  pointer : Option String
  diagnostics : Option Json
  operationIndex : Option ℕ
  operationName : Option String
  deriving DecidableEq

/-- Why an evaluation ends before its last operation. -/
inductive Stop where
  | problem (problem : BatchProblem)
  | eventExpansion
  | matchExpansion
  /-- An internal inconsistency: the whole transaction is aborted. -/
  | thrown (message : String)
  deriving DecidableEq

/-- Report a problem with more of its place. -/
def mapProblem {α : Type} (report : BatchProblem → BatchProblem) : Except Stop α → Except Stop α
  | .error (.problem problem) => .error (.problem (report problem))
  | other => other

@[simp]
theorem mapProblem_eq_ok {α : Type} {report : BatchProblem → BatchProblem} {outcome : Except Stop α}
    {value : α} : mapProblem report outcome = .ok value ↔ outcome = .ok value := by
  unfold mapProblem
  split
  · exact ⟨nofun, nofun⟩
  · exact Iff.rfl

inductive OutcomeKind where
  | created
  | updated
  | deleted
  deriving DecidableEq, Repr

def OutcomeKind.text : OutcomeKind → String
  | created => "created"
  | updated => "updated"
  | deleted => "deleted"

structure ReadUpdateMutationResult where
  outcome : OutcomeKind
  resource : Option ResourceRecord
  deleted : Option (ResourceKind × ResourceIdentity)
  source : Option String
  sourceRevision : Option String
  deriving DecidableEq

/-- A successful mutation: what it writes, then what it deletes, and its outcome. -/
structure MutationSuccess where
  writes : List StoredResource
  deleted : Option String
  outcome : ReadUpdateMutationResult
  deriving DecidableEq

structure AliasOutcome where
  outcome : String
  «alias» : String
  target : Option String
  deriving DecidableEq, Repr

inductive ResultEntry where
  | resource (operationIndex : ℕ) (operationName : Option String)
      (outcome : ReadUpdateMutationResult)
  | alias (operationIndex : ℕ) (outcome : AliasOutcome)
  | matched (operationIndex count : ℕ)
  deriving DecidableEq

structure SetInput where
  collection : ResourceKind
  selector : String
  minimum : Option ℕ
  maximum : Option ℕ
  change : Option Json
  revisionProvenance : Option Json
  deriving DecidableEq

inductive BatchOperation where
  | resource (operation : ResourceOperation) (name : Option String) (input : Json)
  | alias (remove : Bool) (input : Json)
  | set (remove : Bool) (input : SetInput)
  deriving DecidableEq

structure NormalizedTransaction where
  identity : String
  witnessesJson : String
  singleton : Bool
  operations : List BatchOperation
  /-- The captured alias targets of each operation. -/
  aliases : List (List (String × Option String))
  /-- A reference to a creator that bound nothing. -/
  unbound : Bool
  deriving DecidableEq

/-- What the evaluation leaves to its collaborators. -/
structure Evaluators where
  /-- Numbers, references and bindings of an operation's input. -/
  admitInput : NormalizedTransaction → List (String × String) → ℕ → BatchOperation →
    Except Stop Json
  admitSet : NormalizedTransaction → ℕ → SetInput → Except Stop SetInput
  /-- The visible records of a collection that a selector selects, in canonical order. -/
  select : Tables → SetInput → Except Stop (List ResourceRecord)
  /-- One mutation under the captured alias targets. -/
  mutate : Tables → List (String × Option String) → ResourceOperation → Json →
    Except Stop MutationSuccess
  aliasMutation : Tables → Bool → Json → Except Stop (Table String × AliasOutcome)
  /-- Where the diagnostics of a failed set member point in the request. -/
  locate : NormalizedTransaction → ℕ → SetInput → BatchProblem → BatchProblem

/-- How stored rows are read. -/
structure RecordReader where
  scope : String
  /-- The record of a stored body. -/
  parseRecord : StoredResource → Option ResourceRecord
  /-- Whether a local path has the canonical grammar of a Resource. -/
  canonicalPath : String → Bool

structure EvaluationContext extends RecordReader where
  transaction : String
  position : ℕ
  now : ℤ
  maximumInducedEvents : ℕ
  maximumMatchedResources : ℕ

def stripScope (scope uri : String) : Option String :=
  (stripPrefix scope.toList uri.toList).map String.ofList

/-- Read a stored row as a record of its own identity. -/
def readStoredResource (reader : RecordReader) (stored : StoredResource) :
    Except Stop ResourceRecord := do
  let record ← require (reader.parseRecord stored) (.thrown "invalid stored Resource")
  check (stripScope reader.scope record.id = some stored.id ∧
      reader.canonicalPath stored.id = true)
    (.thrown "stored Resource identity differs from its index")
  pure record

def Reference.toJson (reference : Reference) : Json :=
  match reference.revision with
  | none => .string reference.uri
  | some revision => .object [("uri", .string reference.uri), ("revision", .string revision)]

def jsonMember (name : String) (value : Option Json) : List (String × Json) :=
  match value with
  | some value => [(name, value)]
  | none => []

def ResourceRecord.toJson (record : ResourceRecord) : Json :=
  .object ([("id", .string record.id), ("type", .string record.type),
      ("revision", .string record.revision), ("properties", record.properties)] ++
    jsonMember "metadata" record.metadata ++
    jsonMember "revisionProvenance" record.revisionProvenance ++
    (match record.endpoints with
      | some (source, target) => [("source", source.toJson), ("target", target.toJson)]
      | none => []) ++
    jsonMember "ownedLinks" record.ownedLinks)

def ResourceRecord.kind (record : ResourceRecord) : ResourceKind :=
  if record.endpoints.isSome then .link else .bead

structure EvaluationState where
  tables : Tables
  results : List ResultEntry
  events : List TransactionEvent
  /-- In the order in which each identity was first changed. -/
  changes : List TransactionStateChange
  bindings : List (String × String)
  matchedResources : ℕ
  deriving DecidableEq

/-- Record the final image of an identity; a later change replaces an earlier one in its place. -/
def setChange (changes : List TransactionStateChange) (change : TransactionStateChange) :
    List TransactionStateChange :=
  if changes.any fun old ↦ old.id == change.id then
    changes.map fun old ↦ if old.id == change.id then change else old
  else changes ++ [change]

section Evaluation

variable (evaluators : Evaluators) (context : EvaluationContext)

def eventText (position ordinal : ℕ) : String :=
  String.ofList (renderPosition position) ++ "-" ++ toString ordinal

def scopeEvent (subject : ResourceRecord) (type : EventType) (data : EventData)
    (state : EvaluationState) : Except Stop EvaluationState := do
  check (state.events.length < context.maximumInducedEvents) .eventExpansion
  let ordinal := state.events.length
  pure { state with
    events := state.events ++ [{
      id := eventText context.position ordinal
      ordinal, type
      source := context.scope ++ "events/"
      subject := subject.id
      subjectType := subject.type
      transaction := context.transaction
      time := context.now
      data }] }

/-- The row that the operation names directly, before the operation. -/
def beforeRecord (tables : Tables) (input : Json) : Except Stop (Option ResourceRecord) :=
  match ((input.member "bead").orElse fun _ ↦ input.member "link").bind JsonValue.asString with
  | none => .ok none
  | some locator =>
    match tables.resources[(stripScope context.scope locator).getD locator]? with
    | none => .ok none
    | some row => (readStoredResource context.toRecordReader row).map some

def applyWrites (tables : Tables) (success : MutationSuccess) : Tables :=
  let written := success.writes.foldl Tables.putResource tables
  match success.deleted with
  | some id => written.deleteResource id
  | none => written

/-- The rows that are about to be overwritten are read first. -/
def capturePreimages (tables : Tables) (writes : List StoredResource) : Except Stop Unit :=
  writes.forM fun row ↦
    match tables.resources[row.id]? with
    | none => .ok ()
    | some old => (readStoredResource context.toRecordReader old).map fun _ ↦ ()

def recordUpsert (state : EvaluationState) (id : String) : Except Stop EvaluationState := do
  let row ← require state.tables.resources[id]? (.thrown "changed Resource lacks staged postimage")
  let record ← readStoredResource context.toRecordReader row
  pure { state with changes := setChange state.changes (.upsert record.kind record) }

def recordTombstone (before : Option ResourceRecord) (outcome : ReadUpdateMutationResult)
    (state : EvaluationState) (id : String) : Except Stop EvaluationState := do
  let before ← require before (.thrown "deleted Resource lacks matching previous identity")
  let (kind, identity) ← require outcome.deleted
    (.thrown "deleted Resource lacks matching previous identity")
  check (before.id = context.scope ++ id ∧ identity.id = before.id ∧ identity.type = before.type ∧
      identity.revision = before.revision)
    (.thrown "deleted Resource lacks matching previous identity")
  pure { state with changes := setChange state.changes (.tombstone kind identity) }

def lifecycleEvent (input : Json) (before : Option ResourceRecord) (subject : ResourceRecord)
    (outcome : OutcomeKind) (state : EvaluationState) : Except Stop EvaluationState := do
  match outcome with
  | .created =>
    scopeEvent context subject .created
      (.created subject.revision subject.properties (subject.metadata.getD (.object []))
        subject.revisionProvenance subject.endpoints) state
  | .updated =>
    let before ← require before (.thrown "update lacks previous state")
    scopeEvent context subject .updated
      (.updated before.revision subject.revision (input.member "propertiesChange")
        (input.member "metadataChange") subject.revisionProvenance none) state
  | .deleted => scopeEvent context subject .deleted (.deleted subject.revision) state

/-- One incidence fact for each in-scope endpoint of a created or deleted Link. -/
def incidenceEvent (subject : ResourceRecord) (outcome : OutcomeKind)
    (endpoints : Reference × Reference) (state : EvaluationState) (endpoint : Endpoint) :
    Except Stop EvaluationState := do
  let uri := match endpoint with
    | .source => endpoints.1.uri
    | .target => endpoints.2.uri
  match stripScope context.scope uri with
  | none => pure state
  | some path =>
    check (state.tables.resources[path]?.isSome = true) (.thrown "missing staged endpoint")
    scopeEvent context subject (if outcome = .deleted then .unlinked else .linked)
      (.incidence endpoint (subject.id, subject.type) endpoints.1 endpoints.2) state

def incidenceEvents (subject : ResourceRecord) (outcome : OutcomeKind) (state : EvaluationState) :
    Except Stop EvaluationState :=
  match subject.endpoints with
  | some endpoints =>
    if outcome = .updated then .ok state
    else [Endpoint.source, Endpoint.target].foldlM
      (incidenceEvent context subject outcome endpoints) state
  | none => .ok state

def ownedLinkJson (input : Json) (before : Option ResourceRecord) (subject : ResourceRecord)
    (outcome : OutcomeKind) : Except Stop Json := do
  match outcome with
  | .created => pure subject.toJson
  | .deleted => pure (.object [("id", .string subject.id), ("type", .string subject.type),
      ("revision", .string subject.revision)])
  | .updated =>
    let before ← require before (.thrown "owned update lacks committed patch")
    check (input.member "propertiesChange" ≠ none ∨ input.member "metadataChange" ≠ none)
      (.thrown "owned update lacks committed patch")
    pure (.object ([("id", .string subject.id), ("type", .string subject.type),
        ("previousRevision", .string before.revision), ("revision", .string subject.revision)] ++
      jsonMember "change" (input.member "propertiesChange") ++
      jsonMember "metadataChange" (input.member "metadataChange") ++
      jsonMember "revisionProvenance" subject.revisionProvenance))

/-- The source Bead's own event, last, when an owned Link changed. -/
def ownerEvent (input : Json) (staged : Tables) (success : MutationSuccess)
    (before : Option ResourceRecord) (subject : ResourceRecord) (state : EvaluationState) :
    Except Stop EvaluationState := do
  match success.outcome.sourceRevision with
  | none => pure state
  | some sourceRevision =>
    let sourceUri ← require (if subject.endpoints.isSome then success.outcome.source else none)
      (.thrown "owned transition lacks canonical Link/source identity")
    let localSource ← require (stripScope context.scope sourceUri)
      (.thrown "owned transition lacks canonical Link/source identity")
    -- Only a written row has a captured preimage.
    let oldRow ← require (if success.writes.any fun row ↦ row.id == localSource then
        staged.resources[localSource]? else none)
      (.thrown "owned transition lacks matching source versions")
    let oldSource ← readStoredResource context.toRecordReader oldRow
    let row ← require state.tables.resources[localSource]?
      (.thrown "owned transition lacks matching source versions")
    let source ← readStoredResource context.toRecordReader row
    check (source.endpoints = none ∧ oldSource.endpoints = none ∧ source.id = sourceUri ∧
        source.revision = sourceRevision)
      (.thrown "owned transition lacks matching source versions")
    let link ← ownedLinkJson input before subject success.outcome.outcome
    scopeEvent context source .updated
      (.updated oldSource.revision source.revision none none source.revisionProvenance
        (some (.object [("operation", .string success.outcome.outcome.text), ("link", link)]))) state

def bindCreated (bindings : List (String × String)) (name : Option String)
    (outcome : ReadUpdateMutationResult) : List (String × String) :=
  match name, outcome.outcome, outcome.resource with
  | some name, .created, some resource => (name, resource.id) :: bindings
  | _, _, _ => bindings

/-- The subject of a transition: its new record, or what stood before a deletion. -/
def transitionSubject (before : Option ResourceRecord) (outcome : ReadUpdateMutationResult) :
    Except Stop ResourceRecord :=
  require (outcome.resource.orElse fun _ ↦ before)
    (.thrown "successful transition lacks Resource state")

/-- The changes and events of an effective mutation, whose rows are written already. -/
def recordTransition (input : Json) (staged : Tables) (success : MutationSuccess)
    (before : Option ResourceRecord) (state : EvaluationState) : Except Stop EvaluationState := do
  let subject ← transitionSubject before success.outcome
  let upserted ← (success.writes.map StoredResource.id).foldlM
    (recordUpsert context) state
  let removed ← success.deleted.toList.foldlM
    (recordTombstone context before success.outcome) upserted
  let announced ← lifecycleEvent context input before subject success.outcome.outcome removed
  let linked ← incidenceEvents context subject success.outcome.outcome announced
  ownerEvent context input staged success before subject linked

def applyResource (operation : ResourceOperation) (name : Option String) (input : Json)
    (operationIndex : ℕ) (aliases : List (String × Option String)) (state : EvaluationState) :
    Except Stop EvaluationState := do
  let before ← beforeRecord context state.tables input
  let success ← mapProblem (fun problem ↦
    { problem with operationIndex := some operationIndex, operationName := name })
    (evaluators.mutate state.tables aliases operation input)
  capturePreimages context state.tables success.writes
  let applied := { state with
    tables := applyWrites state.tables success
    results := state.results ++ [.resource operationIndex name success.outcome]
    bindings := bindCreated state.bindings name success.outcome }
  if success.writes = [] ∧ success.deleted = none then pure applied
  else recordTransition context input state.tables success before applied

def requestProblem (status : ℕ) (type code retry : String) (operationIndex : Option ℕ)
    (limit pointer : Option String) : BatchProblem :=
  { type, status, code, retry, limit, pointer, diagnostics := none, operationIndex
    operationName := none }

def setMemberInput (input : SetInput) (remove : Bool) (id : String) : Json :=
  .object ([(match input.collection with
      | .bead => "bead"
      | .link => "link", .string id)] ++
    (if remove then [] else jsonMember "propertiesChange" input.change) ++
    jsonMember "revisionProvenance" input.revisionProvenance)

def setMemberOperation (input : SetInput) (remove : Bool) : ResourceOperation :=
  match input.collection, remove with
  | .bead, false => .updateBead
  | .link, false => .updateLink
  | .bead, true => .deleteBead
  | .link, true => .deleteLink

def cardinalityViolated (input : SetInput) (count : ℕ) : Bool :=
  input.minimum.any (fun minimum ↦ decide (count < minimum)) ||
    input.maximum.any fun maximum ↦ decide (maximum < count)

def applySet (normalized : NormalizedTransaction) (remove : Bool) (input : SetInput)
    (operationIndex : ℕ) (state : EvaluationState) : Except Stop EvaluationState := do
  let input ← evaluators.admitSet normalized operationIndex input
  let selected ← evaluators.select state.tables input
  check (¬ cardinalityViolated input selected.length = true)
    (.problem (evaluators.locate normalized operationIndex input
      (requestProblem 409 "https://github.com/gastownhall/bdp/problems/conflict"
        "cardinality-violated" "after-state-change" (some operationIndex) none none)))
  let counted := state.matchedResources + selected.length
  check (counted ≤ context.maximumMatchedResources) .matchExpansion
  let matching := { state with
    matchedResources := counted
    results := state.results ++ [.matched operationIndex selected.length] }
  selected.foldlM (fun state resource ↦
    mapProblem (evaluators.locate normalized operationIndex input)
      (applyResource evaluators context (setMemberOperation input remove) none
        (setMemberInput input remove resource.id) operationIndex [] state)) matching

def applyAlias (normalized : NormalizedTransaction) (remove : Bool) (input : Json)
    (operationIndex : ℕ) (state : EvaluationState) : Except Stop EvaluationState := do
  check (normalized.singleton = true ∧ normalized.operations.length = 1)
    (.thrown "alias operation escaped singleton admission")
  let (aliases, outcome) ← mapProblem (fun problem ↦
    { problem with operationIndex := some operationIndex })
    (evaluators.aliasMutation state.tables remove input)
  pure { state with
    tables := { state.tables with aliases }
    results := state.results ++ [.alias operationIndex outcome] }

def applyOperation (normalized : NormalizedTransaction) (state : EvaluationState)
    (entry : BatchOperation × ℕ) : Except Stop EvaluationState := do
  check (¬ normalized.unbound = true)
    (.problem (requestProblem 400 "https://github.com/gastownhall/bdp/problems/request"
      "binding-unavailable" "never" (some entry.2) none none))
  match entry.1 with
  | .set remove input => applySet evaluators context normalized remove input entry.2 state
  | .alias remove _ =>
    let input ← evaluators.admitInput normalized state.bindings entry.2 entry.1
    applyAlias evaluators normalized remove input entry.2 state
  | .resource operation name _ =>
    let input ← evaluators.admitInput normalized state.bindings entry.2 entry.1
    let aliases ← require normalized.aliases[entry.2]?
      (.thrown "missing admitted operation witnesses")
    applyResource evaluators context operation name input entry.2 aliases state

/-- A terminal evaluation: the final state, or the problem that the receipt reports. -/
inductive BatchEvaluation where
  | ok (state : EvaluationState)
  | failed (problem : BatchProblem)

/-- What a terminal evaluation emits; a failure emits nothing. -/
def BatchEvaluation.events : BatchEvaluation → List TransactionEvent
  | .ok state => state.events
  | .failed _ => []

def sizeProblem (limit : String) : BatchProblem :=
  requestProblem 413 "https://github.com/gastownhall/bdp/problems/size" "limit-exceeded" "never"
    none (some limit) none

def evaluateTransaction (normalized : NormalizedTransaction) (tables : Tables) :
    Except String BatchEvaluation :=
  match normalized.operations.zipIdx.foldlM (applyOperation evaluators context normalized)
    { tables, results := [], events := [], changes := [], bindings := [], matchedResources := 0 } with
  | .ok state => .ok (.ok state)
  | .error (.problem problem) => .ok (.failed problem)
  | .error .matchExpansion => .ok (.failed (sizeProblem "transaction.matchedResources"))
  | .error .eventExpansion => .ok (.failed (sizeProblem "transaction.inducedEvents"))
  | .error (.thrown message) => .error message

end Evaluation

end Bdp.Transaction
