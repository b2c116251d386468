import Bdp.Retained.BatchEvaluate

/-!
# Atomic batch decisions

The decision around a batch. A previous decision under the key is replayed with the labels of the
requesting batch; an unsupported version is answered without deciding; any other batch is evaluated
over the stored graph and committed whole, with one fact for each effect.
-/

namespace Bdp.Retained

variable (config : StoreConfiguration)

section Replay

/-- A saved mapping under the label of the requesting member. -/
def projectMapping (name : Option String) (mapping : Json) : Json :=
  .object (optionalMember "operationIndex" (mapping.member "operationIndex") ++
    optionalMember "operation" (mapping.member "operation") ++
    optionalMember "id" (mapping.member "id") ++
    optionalMember "operationName" (name.map .string))

/-- Labels of the requesting members, none beyond their number. -/
def projectMappings (names : List (Option String)) (mappings : List Json) : List Json :=
  mappings.mapIdx fun index mapping ↦ projectMapping (names[index]?.getD none) mapping

/-- A saved accepted result with its mappings relabelled. -/
def projectResult (names : List (Option String)) (body : String) : Except Failure String := do
  let saved ← require (config.codec.parse body) (.internal "saved batch result is not JSON")
  let members ← require saved.asObject (.internal "saved batch result is not an object")
  let mappings ← require ((saved.member "results").bind JsonValue.asArray)
    (.internal "saved batch result has no mappings")
  pure (config.serialized (.object (members.map fun entry ↦
    if entry.1 = "results" then (entry.1, .array (projectMappings names mappings)) else entry)))

variable {config} in
def replayBatch (input : PreparedBatch config) (previous : OutcomeRow) (store : Store) :
    Except Failure StoredResponse :=
  if previous.operation ≠ .batch then pure (refusal config idempotencyConflict).response
  else do
    check (witnessesValid config.navigation previous.witnesses)
      (.internal "invalid retained alias locator witness")
    let comparison := compareBatch input (store.aliasLookup config) (some previous.witnesses)
    if previous.identity ≠ comparison.identity then
      pure (refusal config idempotencyConflict).response
    else if previous.status ≠ 200 then pure { status := previous.status, text := previous.body }
    else do
      let text ← projectResult config (input.members.map BatchMember.name) previous.body
      if BATCH_LIMITS.maximumResultBytes < text.utf8ByteSize then
        pure (refusal config limitExceeded).response
      else pure { status := 200, text }

end Replay

section Evaluation

/-- The total size of stored bodies that one batch may read. -/
def MAX_GRAPH_BYTES : ℕ := 32 * 1024 * 1024

/-- The rows of the graph as the batch reads them, each under the kind of its identity. -/
def Store.liveStates (store : Store) : List ResourceState :=
  (store.resources.toList.filter fun entry ↦
    store.identities[entry.1]? = some entry.2.kind).map Prod.snd

def Store.graphBytes (store : Store) : ℕ :=
  (store.liveStates.map fun state ↦ (config.serialized state.toJson).utf8ByteSize).sum

/-- The initial graph, keyed by the identity that each body states. -/
def Store.initialGraph (store : Store) : Table ResourceState :=
  store.liveStates.foldl (fun graph state ↦ graph.insert state.resource.id state) ∅

def Store.batchBaseline (store : Store) : BatchBaseline :=
  { initial := store.initialGraph, taken := store.isIdentity, aliasTaken := store.isAliasLocator }

variable {config} in
/-- The evaluation under the limits on members and on the size of the graph. -/
def Store.evaluate (store : Store) (input : PreparedBatch config) (comparison : BatchComparison)
    (clock : ℕ → ℕ) : Except Failure BatchEvaluation := do
  if BATCH_LIMITS.maximumOperations < input.members.length then
    pure (.refused config limitExceeded store.draws)
  else if MAX_GRAPH_BYTES < store.graphBytes config then
    pure (.refused config limitExceeded store.draws)
  else
    let instant ← now (clock 0)
    evaluateBatch input comparison store.batchBaseline (config.clockFormat.toISOString instant)
      store.draws

/-- Verb and state of an effect; every effect has a state on one of its sides. -/
def BatchEffect.transition (effect : BatchEffect) : Option (LifecycleVerb × ResourceState) :=
  match effect.before, effect.after with
  | some before, some after => some (.update before.resource.revision, after)
  | none, some after => some (.create, after)
  | some before, none => some (.delete, before)
  | none, none => none

/-- The facts of the effects in order; each reads the clock once more and draws an event. -/
def batchFacts (transaction : String) (clock : ℕ → ℕ) (draws : Draws) (effects : List BatchEffect) :
    Except Failure (List (BatchEffect × LifecycleFact)) :=
  (effects.zipIdx).mapM fun entry ↦ do
    let (verb, state) ← require entry.1.transition (.internal "batch effect without a state")
    let instant ← now (clock (entry.2 + 1))
    pure (entry.1, lifecycleFact verb state config.navigation.events
      (config.uuids.uuid .event (draws.event + entry.2)) transaction
      (config.clockFormat.toISOString instant))

end Evaluation

section Persistence

/-- Write the final row of a touched identity. -/
def Store.persistRow (store : Store) (row : BatchRow) : Except Failure Store :=
  match row.row with
  | .unchanged _ => pure store
  | .updated _ after => store.putResource row.id after
  | .created after => store.putResource row.id after
  | .deleted _ => pure (store.deleteResource row.id)
  | .allocated => pure (store.deleteResource row.id)

/-- Append one fact with its incidence and its boundary. -/
def Store.persistFact (store : Store) (entry : BatchEffect × LifecycleFact) :
    Except Failure Store := do
  let position := store.head + 1
  check (position ≤ MAX_SAFE_INTEGER) (.internal "event ordering capacity unavailable")
  let store ← store.insertEvent
    { position, subject := entry.2.state.resource.id, fact := entry.2 }
  let store ← store.recordIncidence position (incidentBeads config.navigation.scope
    (entry.1.before.toList ++ entry.1.after.toList))
  store.insertBoundary config position

/-- The positions that a number of facts takes after the head. -/
def Store.nextPositions (store : Store) (count : ℕ) : List ℕ :=
  (List.range count).map fun index ↦ store.head + 1 + index

variable {config} in
/-- Commit an evaluated batch and retain its outcome. -/
def commitBatch (principal : String) (input : PreparedBatch config) (comparison : BatchComparison)
    (evaluation : BatchEvaluation) (facts : List (BatchEffect × LifecycleFact)) (store : Store) :
    Except Failure (Store × StoredResponse) := do
  let decision := store.decisions + 1
  check (decision ≤ MAX_SAFE_INTEGER) (.internal "outcome capacity unavailable")
  let positions := store.nextPositions facts.length
  let store := { store with
    draws := { evaluation.draws with event := evaluation.draws.event + facts.length } }
  let store ← evaluation.allocations.foldlM
    (fun store entry ↦ Store.insertIdentity store entry.1 entry.2) store
  let store ← evaluation.rows.foldlM Store.persistRow store
  let store ← facts.foldlM (Store.persistFact config) store
  let store ← store.insertOutcome
    { decision, principal, key := input.key, operation := .batch, identity := comparison.identity
      witnesses := comparison.originalWitnesses
      status := evaluation.status
      body := evaluation.text
      eventPosition := positions.head? }
  let store ← positions.foldlM (fun store position ↦
    Store.insertDecisionFact store decision position) store
  pure ({ store with decisions := decision },
    { status := evaluation.status, text := evaluation.text })

variable {config} in
/-- Evaluate and commit a batch that was not decided before. -/
def decideFreshBatch (principal : String) (input : PreparedBatch config) (clock : ℕ → ℕ)
    (store : Store) : Except Failure (Store × StoredResponse) := do
  let comparison := compareBatch input (store.aliasLookup config) none
  let evaluation ← store.evaluate input comparison clock
  let facts ← batchFacts config (evaluation.transaction.getD "") clock evaluation.draws
    evaluation.effects
  if facts.any fun entry ↦
      decide (MAX_FACT_BYTES < (config.serialized entry.2.toJson).utf8ByteSize) then
    commitBatch principal input comparison (.refused config limitExceeded store.draws) [] store
  else commitBatch principal input comparison evaluation facts store

variable {config} in
def applyBatch (principal : String) (input : PreparedBatch config) (clock : ℕ → ℕ)
    (store : Store) : Except Failure (Store × StoredResponse) :=
  match store.previousOutcome principal input.key with
  | some previous => do
    let response ← replayBatch input previous store
    pure (store, response)
  | none =>
    if config.batchMode = false ∨ input.capabilityVersion ≠ "1" then
      pure (store, (refusal config (batchCapabilityProblem input.capabilityVersion)).response)
    else decideFreshBatch principal input clock store

end Persistence

end Bdp.Retained
