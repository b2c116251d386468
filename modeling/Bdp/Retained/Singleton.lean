import Bdp.Retained.Store

/-!
# Singleton operations

Creation, update, deletion and alias changes of a retained store, and the decision that wraps each
of them: a request is compared with a previous decision under its key, executed only when there is
none, and retained with its witnesses and its exact response text.
-/

namespace Bdp.Retained

variable (config : StoreConfiguration)

structure StoredResponse where
  status : ℕ
  text : String
  deriving DecidableEq, Repr

/-- A response with the position of the event it committed. -/
structure Outcome where
  status : ℕ
  text : String
  position : Option ℕ
  deriving DecidableEq, Repr

def Outcome.response (outcome : Outcome) : StoredResponse :=
  { status := outcome.status, text := outcome.text }

def refusal (problem : Problem) : Outcome :=
  { status := problem.status, text := config.serialized problem.toJson, position := none }

def MAX_TEXT_BYTES : ℕ := 262144

def MAX_FACT_BYTES : ℕ := 300000

section Endpoints

/-- Why an in-Scope endpoint does not name a live Bead, if it does not. -/
def endpointProblem (lookup : String → Option ResourceState) (name uri : String) :
    Option Problem :=
  match lookup uri with
  | none => some resourceNotFound
  | some (.bead _) => none
  | some (.link _) => some (validationProblem
      [("message", .string (name ++ " endpoint must identify a live in-Scope Bead"))])

def localRequired : Problem :=
  validationProblem [("message", .string "a Link requires at least one in-Scope Bead endpoint")]

/-- The local endpoints of a Link under the names that diagnostics use. -/
def namedLocalEndpoints (scope : String) (resource : RetainedLink) : List (String × String) :=
  [("source", referenceUri resource.source), ("target", referenceUri resource.target)].filter
    fun entry ↦ isLocal scope entry.2

/-- The endpoint check shared by the stored graph and the working graph of a batch. -/
def endpointFailure (scope : String) (lookup : String → Option ResourceState) :
    ResourceState → Option Problem
  | .bead _ => none
  | .link resource =>
    match (namedLocalEndpoints scope resource).findSome? fun entry ↦
        endpointProblem lookup entry.1 entry.2 with
    | some problem => some problem
    | none => if (namedLocalEndpoints scope resource).isEmpty then some localRequired else none

variable {lookup : String → Option ResourceState}

theorem endpointProblem_eq_none {name uri : String} :
    endpointProblem lookup name uri = none ↔ ∃ resource, lookup uri = some (.bead resource) := by
  unfold endpointProblem
  cases hlookup : lookup uri with
  | none => simp
  | some endpoint => cases endpoint <;> simp

theorem namedLocalEndpoints_map_snd (scope : String) (resource : RetainedLink) :
    (namedLocalEndpoints scope resource).map Prod.snd = localEndpoints scope (.link resource) := by
  simp only [namedLocalEndpoints, localEndpoints, ResourceState.endpoints, List.map_cons,
    List.map_nil, List.filter_cons, List.filter_nil]
  cases isLocal scope (referenceUri resource.source) <;>
    cases isLocal scope (referenceUri resource.target) <;> rfl

/-- What a state needs of the graph it joins: a Link has a local endpoint, and every local
endpoint names a live Bead. -/
def EndpointsLive (scope : String) (lookup : String → Option ResourceState)
    (state : ResourceState) : Prop :=
  state.kind = .link → localEndpoints scope state ≠ [] ∧
    ∀ uri ∈ localEndpoints scope state, ∃ resource, lookup uri = some (.bead resource)

theorem endpointFailure_eq_none {scope : String} {state : ResourceState} :
    endpointFailure scope lookup state = none ↔ EndpointsLive scope lookup state := by
  cases state with
  | bead resource => simp [endpointFailure, EndpointsLive, ResourceState.kind]
  | link resource =>
    have hmem (uri : String) : uri ∈ localEndpoints scope (.link resource) ↔
        ∃ name, (name, uri) ∈ namedLocalEndpoints scope resource := by
      rw [← namedLocalEndpoints_map_snd]
      simp
    have hnil : localEndpoints scope (.link resource) = [] ↔
        namedLocalEndpoints scope resource = [] := by
      rw [← namedLocalEndpoints_map_snd]
      simp
    have hfind : ((namedLocalEndpoints scope resource).findSome? fun entry ↦
        endpointProblem lookup entry.1 entry.2) = none ↔
        ∀ uri ∈ localEndpoints scope (.link resource), ∃ found, lookup uri = some (.bead found) := by
      rw [List.findSome?_eq_none_iff]
      constructor
      · intro h uri huri
        obtain ⟨name, hentry⟩ := (hmem uri).mp huri
        exact endpointProblem_eq_none.mp (h _ hentry)
      · intro h entry hentry
        exact endpointProblem_eq_none.mpr (h entry.2 ((hmem entry.2).mpr ⟨entry.1, hentry⟩))
    rw [EndpointsLive, ← hfind, Ne, hnil, endpointFailure]
    cases ((namedLocalEndpoints scope resource).findSome? fun entry ↦
      endpointProblem lookup entry.1 entry.2) with
    | some problem => simp [ResourceState.kind]
    | none => simp [ResourceState.kind, List.isEmpty_iff]

end Endpoints

section Operations

/-- Where a historical update takes its source from, and whether it revives a deleted Bead. -/
structure HistoricalSelection where
  context : HistoricalUpdateContext
  recovering : Bool

/-- Draw candidate identities until one is free; the loop gives up after 32 collisions. -/
def allocateIdentity (taken : String → Bool) : ℕ → ℕ → Option (String × ℕ)
  | 0, _ => none
  | attempts + 1, index =>
    let id := config.navigation.scope ++ config.uuids.uuid .identity index
    if taken id then allocateIdentity taken attempts (index + 1) else some (id, index + 1)

def MAX_ALLOCATION_ATTEMPTS : ℕ := 33

/-- The fact of a transition; a deleted Bead of a historical store ends with a terminal version. -/
def transitionFact (verb : LifecycleVerb) (state : ResourceState) (time : String) (store : Store) :
    LifecycleFact :=
  { lifecycleFact verb state config.navigation.events (config.uuids.uuid .event store.draws.event)
      (config.uuids.uuid .transaction store.draws.transaction) time with
    terminal :=
      if config.historicalMode ∧ state.kind = .bead ∧ verb = .delete then
        some { id := state.resource.id
               revision := config.uuids.uuid .revision store.draws.revision
               previousRevision := state.resource.revision }
      else none }

/-- The draws a transition makes for its fact. -/
def Store.drawFact (store : Store) (fact : LifecycleFact) : Store :=
  { store with draws := { store.draws with
      event := store.draws.event + 1
      transaction := store.draws.transaction + 1
      revision := if fact.terminal.isSome then store.draws.revision + 1
        else store.draws.revision } }

/-- The resource row that a transition writes. -/
def Store.stageResource (store : Store) (verb : LifecycleVerb) (state : ResourceState)
    (recovering : Bool) : Except Failure Store :=
  match verb with
  | .create => do
    let store ← store.insertIdentity state.resource.id state.kind
    store.insertResource state.resource.id state
  | .update _ =>
    if recovering then store.insertResource state.resource.id state
    else pure (store.updateResource state.resource.id state)
  | .delete => pure (store.deleteResource state.resource.id)

/-- The version a historical store retains for a transition of a Bead. -/
def versionBody (fact : LifecycleFact) (historical : Option HistoricalSelection) : VersionBody :=
  match fact.terminal with
  | some terminal => .deleted terminal
  | none => .live fact.state.resource (historical.map HistoricalSelection.context)

def Store.recordVersion (store : Store) (position : ℕ) (fact : LifecycleFact)
    (historical : Option HistoricalSelection) : Except Failure Store :=
  if config.historicalMode ∧ fact.state.kind = .bead then
    store.insertVersion
      { id := fact.state.resource.id
        revision := (versionBody fact historical).revision
        body := versionBody fact historical
        position }
  else pure store

def Store.recordIncidence (store : Store) (position : ℕ) (beads : List String) :
    Except Failure Store :=
  beads.foldlM (fun store bead ↦ store.insertIncidence position bead) store

/-- The states a transition connects; a deletion has no state after it. -/
def transitionStates (verb : LifecycleVerb) (before : Option ResourceState)
    (state : ResourceState) : List ResourceState :=
  before.toList ++ if verb = .delete then [] else [state]

/-- Commit one transition: the resource row, its event, version, incidence and boundary. -/
def complete (verb : LifecycleVerb) (state : ResourceState) (before : Option ResourceState)
    (time : String) (text : Json) (historical : Option HistoricalSelection) (store : Store) :
    Except Failure (Store × Outcome) := do
  let position := store.head + 1
  check (position ≤ MAX_SAFE_INTEGER) (.internal "event ordering capacity unavailable")
  let fact := transitionFact config verb state time store
  let store := store.drawFact fact
  if MAX_TEXT_BYTES < (config.serialized text).utf8ByteSize ∨
      MAX_FACT_BYTES < (config.serialized fact.toJson).utf8ByteSize then
    pure (store, refusal config limitExceeded)
  else
    let store ← store.stageResource verb state (historical.any HistoricalSelection.recovering)
    let store ← store.insertEvent { position, subject := state.resource.id, fact }
    let store ← store.recordVersion config position fact historical
    let store ← store.recordIncidence position
      (incidentBeads config.navigation.scope (transitionStates verb before state))
    let store ← store.insertBoundary config position
    pure (store, { status := 200, text := config.serialized text, position := some position })

structure CreateFields where
  id : Option String
  type : Json
  properties : JsonObject
  metadata : JsonObject
  provenance : Option RevisionProvenanceInput
  source : Option EndpointReference
  target : Option EndpointReference

def Store.drawRevision (store : Store) : String × Store :=
  (config.uuids.uuid .revision store.draws.revision,
    { store with draws := { store.draws with revision := store.draws.revision + 1 } })

/-- The supplied identity, or an allocated one that no identity, alias or address occupies. -/
def Store.creationIdentity (store : Store) (id : Option String) :
    Except Failure (String × Store) :=
  match id with
  | some id => pure (id, store)
  | none =>
    match allocateIdentity config
        (fun id ↦ store.isIdentity id || store.isAliasLocator id || config.isReserved id)
        MAX_ALLOCATION_ATTEMPTS store.draws.identity with
    | some (id, next) => pure (id, { store with draws := { store.draws with identity := next } })
    | none => .error (.request temporarilyUnavailable)

def performCreate (kind : ResourceKind) (fields : CreateFields) (time : ℕ) (store : Store) :
    Except Failure (Store × Outcome) := do
  let (id, store) ← store.creationIdentity config fields.id
  if store.isIdentity id ∨ config.isReserved id then
    pure (store, refusal config identityTaken)
  else if store.isAliasLocator id then
    pure (store, refusal config aliasPathTaken)
  else
    let instant ← now time
    let time := config.clockFormat.toISOString instant
    let (revision, store) := store.drawRevision config
    let state ← require (resourceState kind
      (materializeBead fields.type fields.properties fields.metadata fields.provenance id revision
        time) fields.source fields.target) (.internal "prepared Link has incomplete endpoints")
    match endpointFailure config.navigation.scope (store.currentState · none) state with
    | some problem => pure (store, refusal config problem)
    | none =>
      complete config .create state none time
        (.object [("outcome", .string "created"), ("changed", .bool true),
          ("resource", state.toJson)]) none store

/-- The predecessor of an update and the source of its unedited members. -/
structure UpdateBaseline where
  before : ResourceState
  previousRevision : String
  recovering : Bool
  /-- The latest historical version, read only for a selected historical source. -/
  currentVersion : Option VersionBody

/-- The live record, or for a historical source the last live version before a terminal one. -/
def Store.updateBaseline (store : Store) (kind : ResourceKind) (id : String)
    (selectedHistorical : Bool) : Except Failure (Option UpdateBaseline) :=
  let currentVersion := if selectedHistorical then store.historicalVersion config id none else none
  match store.currentState id (some kind), currentVersion.bind VersionBody.terminalVersion with
  | some live, _ => pure (some
      { before := live, previousRevision := live.resource.revision, recovering := false
        currentVersion })
  | none, none => pure none
  | none, some terminal =>
    match (store.historicalVersion config id (some terminal.previousRevision)).bind
        VersionBody.resource with
    | some baseline => pure (some
        { before := .bead baseline, previousRevision := terminal.revision, recovering := true
          currentVersion })
    | none => .error (.internal "historical current baseline index is inconsistent")

/-- The nesting depth up to which the database reads a JSON text. -/
def MAX_JSON_EXTRACT_DEPTH : ℕ := 1000

/-- The scan for an event of the subject with the revision: `json_extract` fails on a body that is
nested too deeply, and the scan stops at the first match. -/
def findEventRevision (subject revision : String) : List EventRow → Except Failure (Option ℕ)
  | [] => pure none
  | row :: rows =>
    if row.subject = subject then
      if MAX_JSON_EXTRACT_DEPTH < row.fact.toJson.depth then
        .error (.database "malformed JSON")
      else if row.fact.revision = revision then pure (some row.position)
      else findEventRevision subject revision rows
    else findEventRevision subject revision rows

inductive SourceSelection where
  | source (resource : RetainedBead)
  | refused (problem : Problem)

def liveVersionRequired : Problem :=
  validationProblem
    [("message", .string "Historical Update source must identify a retained live version")]

/-- The retained version a historical update names as its source. -/
def Store.selectSource (store : Store) (id : String) (fromRevision : Option String)
    (before : ResourceState) : Except Failure SourceSelection :=
  match fromRevision with
  | none => pure (.source before.resource)
  | some revision =>
    match store.historicalVersion config id (some revision) with
    | none => do
      match ← findEventRevision id revision store.events with
      | some _ => .error (.internal "historical source index is inconsistent")
      | none => pure (.refused revisionUnknown)
    | some (.deleted _) => pure (.refused liveVersionRequired)
    | some (.live resource _) => pure (.source resource)

def editProblem (document : String) (failure : ObjectEditFailure) : Problem :=
  validationProblem ((if document = "metadata" then [("document", .string document)] else []) ++
    [("instanceLocation", .string failure.pointer),
      ("message", .string (document ++ ": " ++ failure.message))])

/-- One document of an update: replaced, edited or kept from the source. -/
def editedDocument (document : String) (replacement : Option JsonObject)
    (change : Option ObjectChange) (source : JsonObject) : Except Problem JsonObject :=
  match replacement, change with
  | some value, _ => .ok value
  | none, none => .ok source
  | none, some change =>
    match applyObjectChange source change with
    | .ok value => .ok value
    | .error failure => .error (editProblem document failure)

/-- Both edited documents; properties fail first. -/
def editedDocuments (edits : EditFields) (properties metadata : JsonObject) :
    Except Problem (JsonObject × JsonObject) := do
  let properties ← editedDocument "properties" edits.properties edits.propertiesChange properties
  let metadata ← editedDocument "metadata" edits.metadata edits.metadataChange metadata
  pure (properties, metadata)

/-- The state after an update before it has a revision of its own. -/
def editedState (before : ResourceState) (type : Json) (properties metadata : JsonObject)
    (source target : Option EndpointReference) : ResourceState :=
  match before with
  | .bead resource => .bead { resource with type, properties, metadata }
  | .link resource => .link { resource with
      type
      properties
      metadata
      source := source.getD resource.source
      target := target.getD resource.target }

/-- The same content under a new revision and provenance. -/
def rematerialized (candidate : ResourceState) (provenance : Option RevisionProvenanceInput)
    (id revision time : String) : ResourceState :=
  let resource := materializeBead candidate.resource.type candidate.resource.properties
    candidate.resource.metadata provenance id revision time
  match candidate with
  | .bead _ => .bead resource
  | .link link => .link { resource with source := link.source, target := link.target }

/-- Whether Type, properties, metadata or an endpoint differ. -/
def contentChanged (candidate before : ResourceState) : Bool :=
  !jsonValueEqual candidate.resource.type before.resource.type ||
    !jsonValueEqual (JsonValue.object candidate.resource.properties)
      (.object before.resource.properties) ||
    !jsonValueEqual (JsonValue.object candidate.resource.metadata)
      (.object before.resource.metadata) ||
    match candidate, before with
    | .link candidate, .link before =>
      !jsonValueEqual candidate.source.toJson before.source.toJson ||
        !jsonValueEqual candidate.target.toJson before.target.toJson
    | _, _ => false

/-- The response body of an update; a selected historical source nests the result. -/
def updateResult (changed : Bool) (resource : Json) (selectedHistorical : Bool)
    (historicalUpdate : Option HistoricalUpdateContext) : Json :=
  let result : Json := .object [("outcome", .string "updated"), ("changed", .bool changed),
    ("resource", resource)]
  if selectedHistorical then
    .object ([("result", result)] ++
      optionalMember "historicalUpdate" (historicalUpdate.map HistoricalUpdateContext.toJson))
  else result

def HISTORICAL_UPDATE_CAPABILITY : String :=
  "https://github.com/gastownhall/bdp/capabilities/historical-update"

def historicalCapabilityProblem : Problem :=
  { code := "capability-not-supported", status := 422, retry := "after-state-change"
    details := [("capability", .string HISTORICAL_UPDATE_CAPABILITY),
      ("capabilityVersion", .string "1"), ("pointer", .string "/fromRevision")] }

/-- The edits of an update applied to its source, checked against the graph. -/
def Store.updateCandidate (store : Store) (edits : EditFields) (before : ResourceState)
    (source : RetainedBead) : Except Problem ResourceState := do
  check (exceedsEditLimits [edits.propertiesChange.getD [], edits.metadataChange.getD []] = false)
    limitExceeded
  let (properties, metadata) ← editedDocuments edits source.properties source.metadata
  let candidate := editedState before (edits.type.getD before.resource.type) properties metadata
    edits.source edits.target
  match endpointFailure config.navigation.scope (store.currentState · none) candidate with
  | some problem => .error problem
  | none => .ok candidate

/-- The last part of an update: nothing is written unless the content changes or a Bead revives. -/
def commitUpdate (id : String) (edits : EditFields) (baseline : UpdateBaseline)
    (candidate : ResourceState) (time : ℕ) (store : Store) : Except Failure (Store × Outcome) := do
  if !baseline.recovering && !contentChanged candidate baseline.before then
    pure (store, { status := 200
                   text := config.serialized (updateResult false baseline.before.toJson
                     edits.fromRevision.isSome
                     (baseline.currentVersion.bind VersionBody.historicalUpdate))
                   position := none })
  else
    let instant ← now time
    let time := config.clockFormat.toISOString instant
    let (revision, store) := store.drawRevision config
    let state := rematerialized candidate edits.provenance id revision time
    let historical := edits.fromRevision.map fun fromRevision ↦
      ({ context := { fromRevision, previousRevision := baseline.previousRevision }
         recovering := baseline.recovering } : HistoricalSelection)
    complete config (.update baseline.previousRevision) state (some baseline.before) time
      (updateResult true state.toJson edits.fromRevision.isSome
        (historical.map HistoricalSelection.context)) historical store

def performUpdate (kind : ResourceKind) (id : String) (edits : EditFields) (time : ℕ)
    (store : Store) : Except Failure (Store × Outcome) := do
  if edits.fromRevision.isSome ∧ config.historicalMode = false then
    pure (store, refusal config historicalCapabilityProblem)
  else
    match ← store.updateBaseline config kind id edits.fromRevision.isSome with
    | none => pure (store, refusal config resourceNotFound)
    | some baseline =>
      if edits.expectedRevision.any (· ≠ baseline.previousRevision) then
        pure (store, refusal config revisionMismatch)
      else
        match ← store.selectSource config id edits.fromRevision baseline.before with
        | .refused problem => pure (store, refusal config problem)
        | .source source =>
          match store.updateCandidate config edits baseline.before source with
          | .error problem => pure (store, refusal config problem)
          | .ok candidate => commitUpdate config id edits baseline candidate time store

/-- Whether a live Link has the Bead as an endpoint. -/
def linkedTo (id : String) (state : ResourceState) : Bool :=
  state.endpoints.any fun reference ↦ referenceUri reference == id

/-- The rows of the kind `link`, as the dependent-Link scan reads them. -/
def Store.liveLinks (store : Store) : List ResourceState :=
  (store.resources.toList.filter fun entry ↦
    store.identities[entry.1]? = some ResourceKind.link).map Prod.snd

def performDelete (kind : ResourceKind) (id : String) (expectedRevision : Option String)
    (time : ℕ) (store : Store) : Except Failure (Store × Outcome) := do
  match store.currentState id (some kind) with
  | none => pure (store, refusal config resourceNotFound)
  | some before =>
    if expectedRevision.any (· ≠ before.resource.revision) then
      pure (store, refusal config revisionMismatch)
    else if kind = .bead ∧ store.liveLinks.any (linkedTo id) then
      pure (store, refusal config incidentLinksExist)
    else
      let instant ← now time
      complete config .delete before (some before) (config.clockFormat.toISOString instant)
        (.object [("outcome", .string "deleted"), ("changed", .bool true),
          ("deleted", deletedIdentity before)]) none store

def aliasTargetProblem : Problem :=
  validationProblem [("message", .string "alias target must be a canonical in-Scope Bead URL")]

/-- Put an alias on a live Bead, or delete a live alias. -/
def performAlias (locator : String) (operation : AliasOperation) (store : Store) :
    Except Failure (Store × Outcome) := do
  if config.navigation.contains locator = false then
    pure (store, refusal config resourceNotFound)
  else
    match operation with
    | .deleteAlias =>
      if store.isAliasLocator locator = false then
        pure (store, refusal config resourceNotFound)
      else
        let text := config.serialized
          (.object [("outcome", .string "deleted"), ("alias", .string locator)])
        if MAX_TEXT_BYTES < text.utf8ByteSize then
          pure (store, refusal config limitExceeded)
        else pure (store.deleteAlias locator, { status := 200, text, position := none })
    | .putAlias target =>
      if store.isIdentity locator ∨ config.isReserved locator then
        pure (store, refusal config identityTaken)
      else if isLocal config.navigation.scope target = false ∨ store.isAliasLocator target then
        pure (store, refusal config aliasTargetProblem)
      else if store.identities[target]? = some ResourceKind.link then
        pure (store, refusal config aliasTargetProblem)
      else if (store.currentState target (some .bead)).isNone then
        pure (store, refusal config resourceNotFound)
      else
        let text := config.serialized (.object
          [("outcome", .string (if store.isAliasLocator locator then "updated" else "created")),
            ("alias", .string locator), ("target", .string target)])
        if MAX_TEXT_BYTES < text.utf8ByteSize then
          pure (store, refusal config limitExceeded)
        else
          let store ← store.putAlias locator target
          pure (store, { status := 200, text, position := none })

end Operations

section Decision

/-- `readAliasWitnesses`: captured locators of the namespace in strictly ascending order, each with
a canonical target or none. -/
def witnessesValid (navigation : Navigation) (witnesses : List AliasWitness) : Prop :=
  (∀ witness ∈ witnesses, navigation.contains witness.locator = true ∧
    witness.locator ∉ navigation.addresses ∧
    ∀ target ∈ witness.target, navigation.canonical target = true) ∧
  (witnesses.map AliasWitness.locator).Pairwise (· < ·)

instance (navigation : Navigation) (witnesses : List AliasWitness) :
    Decidable (witnessesValid navigation witnesses) := by
  unfold witnessesValid
  infer_instance

/-- The retained response of a previous decision, or a conflict. -/
def replayDecision (operation : Operation) (captured : CapturedComparison) (previous : OutcomeRow)
    (store : Store) : Except Failure StoredResponse :=
  if previous.operation ≠ operation then
    pure (refusal config idempotencyConflict).response
  else do
    check (witnessesValid config.navigation previous.witnesses)
      (.internal "invalid retained alias locator witness")
    let comparison := compareCapturedReferences config.codec captured (store.aliasLookup config)
      (some previous.witnesses) []
    if previous.identity ≠ comparison.identity then
      pure (refusal config idempotencyConflict).response
    else pure { status := previous.status, text := previous.body }

/-- A batch store also lists the event of a decision. -/
def Store.recordDecisionFact (store : Store) (decision : ℕ) (position : Option ℕ) :
    Except Failure Store :=
  match position with
  | some position =>
    if config.batchMode then store.insertDecisionFact decision position else pure store
  | none => pure store

/-- Retain a fresh outcome as the next decision. -/
def recordDecision (principal key : String) (operation : Operation)
    (comparison : ReferenceComparison) (outcome : Outcome) (store : Store) :
    Except Failure Store := do
  let decision := store.decisions + 1
  check (decision ≤ MAX_SAFE_INTEGER) (.internal "outcome capacity unavailable")
  let store ← store.insertOutcome
    { decision, principal, key, operation
      identity := comparison.identity
      witnesses := comparison.originalWitnesses
      status := outcome.status
      body := outcome.text
      eventPosition := outcome.position }
  let store ← store.recordDecisionFact config decision outcome.position
  pure { store with decisions := decision }

/-- Decide a singleton request: replay a previous decision, or execute and retain a new one. -/
def decideSingleton (principal key : String) (operation : Operation) (captured : CapturedComparison)
    (execute : ReferenceComparison → Store → Except Failure (Store × Outcome)) (store : Store) :
    Except Failure (Store × StoredResponse) := do
  match store.previousOutcome principal key with
  | some previous =>
    let response ← replayDecision config operation captured previous store
    pure (store, response)
  | none =>
    let comparison := compareCapturedReferences config.codec captured (store.aliasLookup config)
      none []
    let (store, outcome) ← execute comparison store
    let store ← recordDecision config principal key operation comparison outcome store
    pure (store, outcome.response)

/-- The subject of a Bead request after alias resolution; none when its alias is missing. -/
def resolvedSubject (comparison : ReferenceComparison) (bead : String) :
    Except Failure (Option String) :=
  match comparison.references.get .bead with
  | some (.value (.floating uri)) => pure (some uri)
  | some (.value (.pinned _ _)) => .error (.internal "prepared Bead subject unexpectedly pinned")
  | some (.missingAlias _ _) => pure none
  | none => pure (some bead)

def applyCreate (input : PreparedCreate config) (time : ℕ) (_ : ReferenceComparison)
    (store : Store) : Except Failure (Store × Outcome) :=
  match input.refusal with
  | some problem => pure (store, refusal config problem)
  | none => performCreate config .bead
      { id := input.id, type := input.type, properties := input.properties
        metadata := input.metadata, provenance := input.provenance, source := none
        target := none } time store

def applyUpdate (input : PreparedUpdate config) (time : ℕ) (comparison : ReferenceComparison)
    (store : Store) : Except Failure (Store × Outcome) :=
  match input.refusal with
  | some problem => pure (store, refusal config problem)
  | none => do
    match ← resolvedSubject comparison input.bead with
    | none => pure (store, refusal config resourceNotFound)
    | some id => performUpdate config .bead id input.edits time store

def applyDelete (input : PreparedDelete) (time : ℕ) (comparison : ReferenceComparison)
    (store : Store) : Except Failure (Store × Outcome) := do
  match ← resolvedSubject comparison input.bead with
  | none => pure (store, refusal config resourceNotFound)
  | some id => performDelete config .bead id input.expectedRevision time store

/-- Endpoint edits after resolution; the first missing alias refuses the request. -/
def resolvedEndpoints (comparison : ReferenceComparison) (edits : EditFields) :
    Option EditFields :=
  let resolve (slot : ReferenceSlot) (supplied : Option EndpointReference) :
      Option (Option EndpointReference) :=
    match comparison.references.get slot with
    | some (.value reference) => some (some reference)
    | some (.missingAlias _ _) => none
    | none => some supplied
  do
    let source ← resolve .source edits.source
    let target ← resolve .target edits.target
    pure { edits with source, target }

def applyLink (input : PreparedLink config) (time : ℕ) (comparison : ReferenceComparison)
    (store : Store) : Except Failure (Store × Outcome) :=
  match input.refusal with
  | some problem => pure (store, refusal config problem)
  | none =>
    match resolvedEndpoints comparison input.edits with
    | none => pure (store, refusal config resourceNotFound)
    | some edits =>
      match input.operation with
      | .createLink => performCreate config .link
          { id := input.id, type := edits.type.getD .null, properties := edits.properties.getD []
            metadata := edits.metadata.getD [], provenance := edits.provenance
            source := edits.source, target := edits.target } time store
      | .updateLink => performUpdate config .link input.link edits time store
      | .deleteLink => performDelete config .link input.link edits.expectedRevision time store

def applyAlias (input : PreparedAlias) (_ : ReferenceComparison) (store : Store) :
    Except Failure (Store × Outcome) :=
  performAlias config input.locator input.operation store

end Decision

end Bdp.Retained
