import Bdp.Retained.Singleton
import Bdp.Retained.BatchContract

/-!
# Batch evaluation

One working graph in memory: the members of a batch are staged in order over the live resources,
and only a batch whose members are all admitted yields final rows, their effects and a result text.
-/

namespace Bdp.Retained

variable (config : StoreConfiguration)

/-- A member stops the whole batch with a refusal, or an inconsistency fails the request. -/
inductive Interruption where
  | refused (problem : Problem)
  | failed (failure : Failure)
  deriving DecidableEq

structure BatchMapping where
  operationIndex : ℕ
  operation : Operation
  id : String
  operationName : Option String
  deriving DecidableEq

def BatchMapping.toJson (mapping : BatchMapping) : Json :=
  .object ([("operationIndex", jsonNat mapping.operationIndex),
    ("operation", .string mapping.operation.text), ("id", .string mapping.id)] ++
    optionalMember "operationName" (mapping.operationName.map .string))

/-- What the evaluation reads of the store it starts from. -/
structure BatchBaseline where
  initial : Table ResourceState
  taken : String → Bool
  aliasTaken : String → Bool

structure WorkingGraph where
  live : Table ResourceState
  allocated : List (String × ResourceKind)
  touched : Table ResourceKind
  mappings : List BatchMapping
  provenance : Table (List RevisionProvenanceInput)
  identityDraws : ℕ

namespace WorkingGraph

def initial (baseline : BatchBaseline) (identityDraws : ℕ) : WorkingGraph :=
  { live := baseline.initial, allocated := [], touched := ∅, mappings := [], provenance := ∅
    identityDraws }

/-- Identities that an earlier member of the batch has created. -/
def seen (graph : WorkingGraph) (id : String) : Bool :=
  graph.allocated.any fun entry ↦ entry.1 == id

end WorkingGraph

section Members

variable {config}

/-- The reference of a field after its handle or its alias is resolved; none when it is missing. -/
def memberReference (graph : WorkingGraph) (member : BatchMember config)
    (comparison : ReferenceComparison) (field : HandleField) :
    Except Interruption (Option EndpointReference) :=
  match member.handles.lookup field with
  | some operationIndex =>
    match graph.mappings[operationIndex]? with
    | some mapping => pure ((member.invocation.supplied field).map (·.withUri mapping.id))
    | none => .error (.failed (.internal "missing prior batch identity binding"))
  | none =>
    match field.slot.bind comparison.references.get with
    | some (.missingAlias _ _) => pure none
    | some (.value reference) => pure (some reference)
    | none => pure (member.invocation.supplied field)

/-- The explicit identity of a creating member, or an allocated one. -/
def candidateIdentity (baseline : BatchBaseline) (graph : WorkingGraph)
    (member : BatchMember config) : Except Interruption (String × ℕ) :=
  match member.invocation.createdId with
  | some id => pure (id, graph.identityDraws)
  | none => require
      (allocateIdentity config (fun id ↦ graph.seen id || baseline.taken id ||
        baseline.aliasTaken id || config.isReserved id) MAX_ALLOCATION_ATTEMPTS
        graph.identityDraws)
      (.refused temporarilyUnavailable)

/-- The identity of a creating member, not occupied in the store or by an earlier member. -/
def createdIdentity (baseline : BatchBaseline) (graph : WorkingGraph)
    (member : BatchMember config) : Except Interruption (String × ℕ) := do
  let (id, draws) ← candidateIdentity baseline graph member
  check (graph.seen id = false ∧ baseline.taken id = false ∧ config.isReserved id = false)
    (.refused identityTaken)
  check (baseline.aliasTaken id = false) (.refused aliasPathTaken)
  pure (id, draws)

/-- A staged record has no revision of its own yet. -/
def stagedBead (edits : EditFields) (id : String) : RetainedBead :=
  { id
    type := edits.type.getD .null
    revision := "unpublished"
    properties := edits.properties.getD []
    metadata := edits.metadata.getD []
    revisionProvenance := none }

variable (config) in
/-- The endpoint check of the working graph, as a refusal. -/
def admitEndpoints (graph : WorkingGraph) (state : ResourceState) : Except Interruption Unit :=
  match endpointFailure config.navigation.scope (graph.live[·]?) state with
  | some problem => .error (.refused problem)
  | none => pure ()

def createdState (graph : WorkingGraph) (member : BatchMember config)
    (comparison : ReferenceComparison) (id : String) : Except Interruption ResourceState := do
  let base := stagedBead member.invocation.edits id
  match member.invocation.kind with
  | .bead => pure (.bead base)
  | .link =>
    let source ← memberReference graph member comparison .source
    let target ← memberReference graph member comparison .target
    match source, target with
    | some source, some target => pure (.link { base with source, target })
    | _, _ => .error (.refused resourceNotFound)

/-- Stage a creation; the result is the identity of the member's mapping. -/
def stageCreate (baseline : BatchBaseline) (graph : WorkingGraph) (member : BatchMember config)
    (comparison : ReferenceComparison) : Except Interruption (String × WorkingGraph) := do
  let (id, identityDraws) ← createdIdentity baseline graph member
  let state ← createdState graph member comparison id
  admitEndpoints config graph state
  pure (id, { graph with
    live := graph.live.insert id state
    allocated := graph.allocated ++ [(id, member.invocation.kind)]
    identityDraws })

/-- The live subject of an updating or deleting member; its guard is the stored revision. -/
def stagedSubject (baseline : BatchBaseline) (graph : WorkingGraph) (member : BatchMember config)
    (comparison : ReferenceComparison) : Except Interruption (String × ResourceState) := do
  let field := match member.invocation.kind with
    | .bead => HandleField.bead
    | .link => HandleField.link
  match ← memberReference graph member comparison field with
  | some (.floating id) => do
    let before ← require (graph.live[id]?) (.refused resourceNotFound)
    check (before.kind = member.invocation.kind) (.refused resourceNotFound)
    check (∀ revision ∈ member.invocation.edits.expectedRevision,
      (baseline.initial[id]?).map (fun state ↦ state.resource.revision) = some revision)
      (.refused revisionMismatch)
    pure (id, before)
  | _ => .error (.refused resourceNotFound)

/-- Stage a deletion; a Bead may not be an endpoint of a live Link of the working graph. -/
def stageDelete (baseline : BatchBaseline) (graph : WorkingGraph) (member : BatchMember config)
    (comparison : ReferenceComparison) : Except Interruption (String × WorkingGraph) := do
  let (id, _) ← stagedSubject baseline graph member comparison
  check (member.invocation.kind = .bead →
      ((graph.live.toList.map Prod.snd).any fun state ↦
        state.kind == .link && linkedTo id state) = false)
    (.refused incidentLinksExist)
  pure (id, { graph with live := graph.live.erase id })

/-- An endpoint edit of an update: absent, resolved, or a missing alias. -/
def editedEndpoint (graph : WorkingGraph) (member : BatchMember config)
    (comparison : ReferenceComparison) (field : HandleField) (current : EndpointReference) :
    Except Interruption (Option EndpointReference) :=
  if (member.invocation.supplied field).isSome then
    memberReference graph member comparison field
  else pure (some current)

def updatedState (graph : WorkingGraph) (member : BatchMember config)
    (comparison : ReferenceComparison) (before : ResourceState) :
    Except Interruption ResourceState := do
  let edits := member.invocation.edits
  check (exceedsEditLimits [edits.propertiesChange.getD [], edits.metadataChange.getD []] = false)
    (.refused limitExceeded)
  let (properties, metadata) ← (editedDocuments edits before.resource.properties
    before.resource.metadata).mapError .refused
  let type := edits.type.getD before.resource.type
  match before with
  | .bead _ => pure (editedState before type properties metadata none none)
  | .link resource =>
    let source ← editedEndpoint graph member comparison .source resource.source
    let target ← editedEndpoint graph member comparison .target resource.target
    match source, target with
    | some source, some target =>
      pure (editedState before type properties metadata (some source) (some target))
    | _, _ => .error (.refused resourceNotFound)

def stageUpdate (baseline : BatchBaseline) (graph : WorkingGraph) (member : BatchMember config)
    (comparison : ReferenceComparison) : Except Interruption (String × WorkingGraph) := do
  let (id, before) ← stagedSubject baseline graph member comparison
  let state ← updatedState graph member comparison before
  admitEndpoints config graph state
  pure (id, { graph with live := graph.live.insert id state })

def stageOperation (baseline : BatchBaseline) (graph : WorkingGraph) (member : BatchMember config)
    (comparison : ReferenceComparison) : Except Interruption (String × WorkingGraph) :=
  if member.invocation.isCreate then stageCreate baseline graph member comparison
  else if member.invocation.isDelete then stageDelete baseline graph member comparison
  else stageUpdate baseline graph member comparison

/-- Record what every staged member leaves behind. -/
def recordMember (member : BatchMember config) (index : ℕ) (id : String) (graph : WorkingGraph) :
    WorkingGraph :=
  { graph with
    touched := graph.touched.insert id member.invocation.kind
    provenance := match member.invocation.edits.provenance with
      | none => graph.provenance
      | some input => graph.provenance.insert id (graph.provenance.getD id [] ++ [input])
    mappings := graph.mappings ++
      [{ operationIndex := index, operation := member.invocation.operation, id
         operationName := member.name }] }

def evaluateMember (baseline : BatchBaseline) (graph : WorkingGraph)
    (entry : BatchMember config × ReferenceComparison) : Except Interruption WorkingGraph :=
  match entry.1.invocation.refusal with
  | some problem => .error (.refused problem)
  | none => do
    let (id, staged) ← stageOperation baseline graph entry.1 entry.2
    pure (recordMember entry.1 graph.mappings.length id staged)

end Members

section Rows

/-- The final row of one touched identity. -/
inductive BatchFinalRow where
  /-- Created and deleted again within the batch. -/
  | allocated
  | deleted (before : ResourceState)
  | unchanged (before : ResourceState)
  | updated (before after : ResourceState)
  | created (after : ResourceState)
  deriving DecidableEq

structure BatchEffect where
  before : Option ResourceState
  after : Option ResourceState
  deriving DecidableEq

namespace BatchFinalRow

def outcome : BatchFinalRow → String
  | .allocated => "allocated"
  | .deleted _ => "deleted"
  | .unchanged _ => "unchanged"
  | .updated _ _ => "updated"
  | .created _ => "created"

def changed : BatchFinalRow → Bool
  | .unchanged _ => false
  | _ => true

def resource : BatchFinalRow → Option ResourceState
  | .unchanged before => some before
  | .updated _ after => some after
  | .created after => some after
  | _ => none

/-- The committed effect of a row; an allocated identity has none. -/
def effect : BatchFinalRow → Option BatchEffect
  | .deleted before => some { before := some before, after := none }
  | .updated before after => some { before := some before, after := some after }
  | .created after => some { before := none, after := some after }
  | _ => none

def toJson (id : String) (kind : ResourceKind) (row : BatchFinalRow) : Json :=
  .object ([("id", .string id), ("resourceKind", .string kind.text),
    ("outcome", .string row.outcome), ("changed", .bool row.changed)] ++
    optionalMember "resource" (row.resource.map ResourceState.toJson) ++
    match row with
    | .deleted before => [("deleted", deletedIdentity before)]
    | _ => [])

end BatchFinalRow

/-- A final row with the identity and kind it is about. -/
structure BatchRow where
  id : String
  kind : ResourceKind
  row : BatchFinalRow
  deriving DecidableEq

/-- The content that decides whether a record has changed. -/
def covered (state : ResourceState) : Json :=
  .object ([("type", state.resource.type), ("properties", .object state.resource.properties),
    ("metadata", .object state.resource.metadata)] ++
    match state with
    | .bead _ => []
    | .link resource => [("source", resource.source.toJson), ("target", resource.target.toJson)])

def conflictingProvenance : Problem :=
  validationProblem [("message", .string "conflicting batch revision provenance inputs")]

/-- The final row of a touched identity, with the number of revisions drawn so far. -/
def finalRow (baseline : BatchBaseline) (graph : WorkingGraph) (time : String) (id : String)
    (revisions : ℕ) : Except Problem (BatchFinalRow × ℕ) :=
  match baseline.initial[id]?, graph.live[id]? with
  | none, none => pure (.allocated, revisions)
  | some before, none => pure (.deleted before, revisions)
  | before, some staged =>
    match before.filter fun before ↦ jsonValueEqual (covered before) (covered staged) with
    | some before => pure (.unchanged before, revisions)
    | none => do
      let inputs := graph.provenance.getD id []
      check ((inputs.any fun input ↦
          !jsonValueEqual input.toJson ((inputs.head?.map (·.toJson)).getD .null)) = false)
        conflictingProvenance
      let after := rematerialized staged inputs.head? id (config.uuids.uuid .revision revisions)
        time
      match before with
      | some before => pure (.updated before after, revisions + 1)
      | none => pure (.created after, revisions + 1)

/-- Add the row of the next touched identity. -/
def appendRow (baseline : BatchBaseline) (graph : WorkingGraph) (time : String)
    (rows : List BatchRow × ℕ) (entry : String × ResourceKind) :
    Except Problem (List BatchRow × ℕ) := do
  let (row, revisions) ← finalRow config baseline graph time entry.1 rows.2
  pure (rows.1 ++ [{ id := entry.1, kind := entry.2, row }], revisions)

/-- The rows of all touched identities in identity order. -/
def finalRows (baseline : BatchBaseline) (graph : WorkingGraph) (time : String) (revisions : ℕ) :
    Except Problem (List BatchRow × ℕ) :=
  graph.touched.toList.foldlM (appendRow config baseline graph time) ([], revisions)

/-- The result document of an accepted batch. -/
def batchResult (transaction : Option String) (mappings : List BatchMapping)
    (rows : List BatchRow) : Json :=
  .object ([("capabilityVersion", .string "1"), ("changed", .bool transaction.isSome)] ++
    optionalMember "transaction" (transaction.map .string) ++
    [("results", .array (mappings.map BatchMapping.toJson)),
      ("resources", .array (rows.map fun row ↦ row.row.toJson row.id row.kind))])

end Rows

structure BatchEvaluation where
  status : ℕ
  text : String
  allocations : List (String × ResourceKind)
  rows : List BatchRow
  transaction : Option String
  draws : Draws

namespace BatchEvaluation

/-- A refused batch leaves nothing behind, and shows none of the identifiers it drew. -/
def refused (problem : Problem) (draws : Draws) : BatchEvaluation :=
  { status := problem.status, text := config.serialized problem.toJson, allocations := []
    rows := [], transaction := none, draws }

def effects (evaluation : BatchEvaluation) : List BatchEffect :=
  evaluation.rows.filterMap fun row ↦ row.row.effect

end BatchEvaluation

variable {config} in
/-- The members staged in order, each with its own comparison. -/
def stageMembers (input : PreparedBatch config) (comparison : BatchComparison)
    (baseline : BatchBaseline) (identityDraws : ℕ) : Except Interruption WorkingGraph :=
  (input.members.zip comparison.members).foldlM (evaluateMember baseline)
    (WorkingGraph.initial baseline identityDraws)

/-- The evaluation of a staged graph: rows, transaction and the bounded result text. -/
def finishBatch (baseline : BatchBaseline) (graph : WorkingGraph) (time : String)
    (draws : Draws) : Except Problem BatchEvaluation := do
  let (rows, revisions) ← finalRows config baseline graph time draws.revision
  let changed := rows.any fun row ↦ row.row.changed
  let transaction := if changed then
    some (config.uuids.uuid .transaction draws.transaction) else none
  let text := config.serialized (batchResult transaction graph.mappings rows)
  check (text.utf8ByteSize ≤ BATCH_LIMITS.maximumResultBytes) limitExceeded
  pure { status := 200
         text
         allocations := graph.allocated
         rows
         transaction
         draws := { draws with
           identity := graph.identityDraws
           revision := revisions
           transaction := if changed then draws.transaction + 1 else draws.transaction } }

variable {config} in
def evaluateBatch (input : PreparedBatch config) (comparison : BatchComparison)
    (baseline : BatchBaseline) (time : String) (draws : Draws) :
    Except Failure BatchEvaluation :=
  match stageMembers input comparison baseline draws.identity with
  | .error (.failed failure) => .error failure
  | .error (.refused problem) => .ok (.refused config problem draws)
  | .ok graph =>
    match finishBatch config baseline graph time draws with
    | .ok evaluation => .ok evaluation
    | .error problem => .ok (.refused config problem draws)

end Bdp.Retained
