import Bdp.Evaluator.Alias

/-!
# Graphs under mutation

The tables that members read and write, in the recovery store and in the transaction store, and the
runs of mutations over them. A member that does not succeed, or whose writes a store refuses, leaves
everything as it was. The members of one transaction are consecutive steps.
-/

namespace Bdp.Evaluator

open Recovery (ResourceKind ResourceShape)
open Retained (JsonObject)
open UrlPath (Scope)

/-- The two stores write the same rows under different guards. -/
inductive StoreKind where
  | recovery
  | transaction
  deriving DecidableEq, Repr

/-- What stays fixed while a store is open. -/
structure GraphConfiguration where
  store : StoreKind
  scope : Scope
  installedTypes : Table String
  contracts : String → String → Option InstalledResourceContract
  readable : ResourceRecord → Bool
  sizes : TextSizes
  isExternalBead : String → Bool
  /-- The allocators never repeat a revision, and allocate no empty one. -/
  revision : ℕ → String
  revision_injective : Function.Injective revision
  revision_nonempty : ∀ index, revision index ≠ ""

structure Graph where
  resources : Table StoredResource
  /-- Committed identities under the kind of their first row. -/
  identities : Table ResourceKind
  aliases : Table String
  /-- How many revisions have been allocated. -/
  revisions : ℕ

/-- What one member brings along: its policy and limits, and the aliases captured for it. -/
structure MemberContext where
  policy : ResourceMutationPolicy
  canWriteBead : BeadRecord → Bool
  maximumEndpointMultiplicity : List MaximumEndpointMultiplicityPolicy
  observeCommitTime : Option String
  recordChangeContext : Bool
  limits : ResourceEvaluationLimits
  /-- Alias targets captured at admission; a captured miss stays a miss. -/
  captured : List (String × Option String)
  allocateResourceId : ResourceKind → Except String String
  allocationUnsafe : Bool

variable (config : GraphConfiguration)

def MemberContext.options (context : MemberContext) : ResourceEvaluationOptions :=
  { scope := config.scope, contracts := config.contracts, policy := context.policy
    maximumEndpointMultiplicity := context.maximumEndpointMultiplicity
    observeCommitTime := context.observeCommitTime
    recordChangeContext := context.recordChangeContext, limits := context.limits
    sizes := config.sizes, readable := config.readable, isExternalBead := config.isExternalBead }

namespace Graph

variable (graph : Graph)

def empty : Graph := { resources := ∅, identities := ∅, aliases := ∅, revisions := 0 }

/-- The facade of a Resource member, with the captured aliases in front of the live ones. -/
def view (context : MemberContext) : ResourceTransaction :=
  { resources := graph.resources
    identityWasCommitted := fun id ↦ graph.identities.contains id
    «alias» := fun path ↦ (context.captured.lookup path).getD graph.aliases[path]?
    installedTypes := config.installedTypes
    allocateResourceId := context.allocateResourceId
    allocateRevision := fun draw ↦
      if context.allocationUnsafe then .unsafeAllocation
      else .text (config.revision (graph.revisions + draw)) }

/-- The facade of an alias member, which captures nothing. -/
def aliasView (context : MemberContext) : ResourceTransaction :=
  graph.view config { context with captured := [] }

def incidentLinks (id : String) : List StoredResource :=
  (graph.resources.toList.map Prod.snd).filter fun row ↦
    row.shape.source == some id || row.shape.target == some id

/-- The row that an upsert leaves: the body is replaced, the columns stay. -/
def upserted (row : StoredResource) : StoredResource :=
  match graph.resources[row.id]? with
  | some old => { old with body := row.body }
  | none => row

def insertRow (row : StoredResource) : Graph :=
  { graph with
    identities := if row.id ∈ graph.identities then graph.identities
      else graph.identities.insert row.id row.kind
    resources := graph.resources.insert row.id (graph.upserted row) }

/-- The guards of the recovery store on a written row. -/
def putAdmitted (row : StoredResource) : Prop :=
  row.id ≠ "" ∧ row.id.toList.head? ≠ some '/' ∧ row.id.toList.getLast? ≠ some '/' ∧
    (∀ old, graph.resources[row.id]? = some old → old.shape = row.shape) ∧
    (graph.resources[row.id]? = none → row.id ∉ graph.identities) ∧
    ∀ path, aliasPath row.id = some path → path ∉ graph.aliases

instance (row : StoredResource) : Decidable (graph.putAdmitted row) := by
  unfold putAdmitted
  have shapes : Decidable (∀ old, graph.resources[row.id]? = some old → old.shape = row.shape) :=
    match graph.resources[row.id]? with
    | none => isTrue (by simp)
    | some found => decidable_of_iff (found.shape = row.shape) (by simp)
  have paths : Decidable (∀ path, aliasPath row.id = some path → path ∉ graph.aliases) :=
    match aliasPath row.id with
    | none => isTrue (by simp)
    | some path => decidable_of_iff (path ∉ graph.aliases) (by simp)
  infer_instance

def putResource (row : StoredResource) : Except String Graph := do
  match config.store with
  | .recovery => check (graph.putAdmitted row) "recovery store refuses the Resource"
  | .transaction => pure ()
  pure (graph.insertRow row)

def deleteResource (id : String) : Except String Graph := do
  match config.store with
  | .recovery => check (graph.incidentLinks id = []) "live incident Link prevents deletion"
  | .transaction => pure ()
  pure { graph with resources := graph.resources.erase id }

def putAlias (path target : String) : Except String Graph := do
  match config.store with
  | .recovery => do
    check (path ≠ "" ∧ "alias/" ++ path ∉ graph.identities)
      "alias collides with committed Resource identity"
    check (graph.resources[target]?.map StoredResource.kind = some .bead)
      "alias target must be a live Bead"
  | .transaction => pure ()
  pure { graph with aliases := graph.aliases.insert path target }

def deleteAny (deleted : Option String) : Except String Graph :=
  match deleted with
  | none => .ok graph
  | some id => graph.deleteResource config id

/-- Write the rows of a successful evaluation, then delete its Resource. -/
def apply (evaluation : ResourceEvaluation) : Except String Graph := do
  let written ← evaluation.writes.foldlM (fun graph row ↦ graph.putResource config row) graph
  let removed ← written.deleteAny config evaluation.deleted
  pure { removed with revisions := removed.revisions + 2 }

def applyAlias (change : AliasChange) : Except String Graph :=
  match change with
  | .unchanged => .ok graph
  | .put path target => graph.putAlias config path target
  | .delete path => .ok { graph with aliases := graph.aliases.erase path }

/-- A Resource member that succeeds and whose writes are taken. -/
def Mutated (context : MemberContext) (mutation : ResourceMutation)
    (evaluation : ResourceEvaluation) (after : Graph) : Prop :=
  evaluate (context.options config) (graph.view config context) mutation = .ok evaluation ∧
    graph.apply config evaluation = .ok after

/-- An alias member that succeeds and whose write is taken. -/
def AliasMutated (context : MemberContext) (mutation : AliasMutation)
    (evaluation : AliasEvaluation) (after : Graph) : Prop :=
  evaluateAlias (context.options config) context.canWriteBead (graph.aliasView config context)
      mutation = .ok evaluation ∧
    graph.applyAlias config evaluation.change = .ok after

end Graph

/-- The references of a mutation that are read as Beads. -/
def ResourceMutation.beadReferences : ResourceMutation → List String
  | .createLink _ source target => [source.uri, target.uri]
  | .update .bead input => [input.subject]
  | .delete .bead subject _ => [subject]
  | _ => []

/-- Captured aliases are what an earlier or the current graph held. A captured miss stays in the
mutation as it was spelled. -/
def CapturedFrom (graphs : List Graph) (context : MemberContext) (mutation : ResourceMutation) :
    Prop :=
  ∀ entry ∈ context.captured, (∃ graph ∈ graphs, entry.2 = graph.aliases[entry.1]?) ∧
    (entry.2 = none → ∃ reference ∈ mutation.beadReferences, ∃ uri,
      canonical (context.options config) reference = .ok uri ∧
        (config.scope.localPath uri).bind aliasPath = some entry.1)

/-- Runs from the empty graph, with the graphs passed on the way, the last one first. Every Resource
member satisfies the condition. -/
inductive GraphRun (admits : MemberContext → ResourceMutation → Prop) :
    List Graph → Graph → Prop where
  | empty : GraphRun admits [] Graph.empty
  | mutated {past : List Graph} {graph after : Graph} (context : MemberContext)
      (mutation : ResourceMutation) (evaluation : ResourceEvaluation)
      (run : GraphRun admits past graph)
      (captured : CapturedFrom config (graph :: past) context mutation)
      (admitted : admits context mutation)
      (step : graph.Mutated config context mutation evaluation after) :
      GraphRun admits (graph :: past) after
  | aliased {past : List Graph} {graph after : Graph} (context : MemberContext)
      (mutation : AliasMutation) (evaluation : AliasEvaluation)
      (run : GraphRun admits past graph)
      (step : graph.AliasMutated config context mutation evaluation after) :
      GraphRun admits (graph :: past) after
  /-- A member that fails, is refused by the store, or is rolled back. -/
  | unchanged {past : List Graph} {graph : Graph} (run : GraphRun admits past graph) :
      GraphRun admits (graph :: past) graph

end Bdp.Evaluator
