import Bdp.Library.Checked
import Bdp.Library.Json
import Bdp.Transaction.Tokens

/-!
# Committed groups and their projections

A committed transaction with at least one event leaves one group: the state changes and the events
of the transaction, at one scope position. Event sources and the changefeed read projections of a
group under the context of an observation; a projection checks the framing of the group it reads.
-/

namespace Bdp.Transaction

abbrev Json := JsonValue ℚ

inductive ResourceKind where
  | bead
  | link
  deriving DecidableEq, Repr

/-- A reference is a plain URI, or a URI pinned to a revision. -/
structure Reference where
  uri : String
  revision : Option String
  deriving DecidableEq, Repr

/-- A Link record has endpoints, and a Bead record may list its owned Links. -/
structure ResourceRecord where
  id : String
  type : String
  revision : String
  properties : Json
  metadata : Option Json
  revisionProvenance : Option Json
  endpoints : Option (Reference × Reference)
  ownedLinks : Option Json
  deriving DecidableEq

structure ResourceIdentity where
  id : String
  type : String
  revision : String
  deriving DecidableEq, Repr

inductive TransactionStateChange where
  | upsert (resourceKind : ResourceKind) (resource : ResourceRecord)
  | tombstone (resourceKind : ResourceKind) (resource : ResourceIdentity)
  deriving DecidableEq

namespace TransactionStateChange

def id : TransactionStateChange → String
  | upsert _ resource => resource.id
  | tombstone _ resource => resource.id

def resourceKind : TransactionStateChange → ResourceKind
  | upsert kind _ => kind
  | tombstone kind _ => kind

end TransactionStateChange

inductive EventType where
  | created
  | updated
  | deleted
  | linked
  | unlinked
  deriving DecidableEq, Repr

inductive Endpoint where
  | source
  | target
  deriving DecidableEq, Repr

/-- The facts of an event, by what it reports. -/
inductive EventData where
  | created (revision : String) (properties : Json) (metadata : Json)
      (revisionProvenance : Option Json) (endpoints : Option (Reference × Reference))
  | updated (previousRevision revision : String) (change metadataChange : Option Json)
      (revisionProvenance : Option Json) (ownedLink : Option Json)
  | deleted (revision : String)
  | incidence (endpoint : Endpoint) (link : String × String) (source target : Reference)
  deriving DecidableEq

namespace EventData

def endpoints : EventData → Option (Reference × Reference)
  | created _ _ _ _ endpoints => endpoints
  | incidence _ _ source target => some (source, target)
  | _ => none

/-- The URI of the endpoint that an incidence fact is about. -/
def incidentUri : EventData → Option String
  | incidence .source _ source _ => some source.uri
  | incidence .target _ _ target => some target.uri
  | _ => none

def change : EventData → Option Json
  | updated _ _ change _ _ _ => change
  | _ => none

def metadataChange : EventData → Option Json
  | updated _ _ _ metadataChange _ _ => metadataChange
  | _ => none

end EventData

structure TransactionEvent where
  id : String
  ordinal : ℕ
  type : EventType
  source : String
  subject : String
  subjectType : String
  transaction : String
  time : ℤ
  data : EventData
  deriving DecidableEq

structure TransactionGroup where
  scopeEpoch : String
  authorizationView : String
  checkpoint : ℕ
  position : ℕ
  previousPosition : ℕ
  transaction : String
  changes : List TransactionStateChange
  eventCount : ℕ
  events : List TransactionEvent
  deriving DecidableEq

/-- A row of the groups table. -/
structure GroupRow where
  position : ℕ
  body : TransactionGroup
  deriving DecidableEq

inductive ReadFailure where
  /-- The cursor or checkpoint is not one of this source. -/
  | parameter
  | cursorExpired
  | foreignView
  | behind
  | unproved
  | unsupported
  | catchUpTimeout
  /-- The membership of an incident metadata change is not specified yet. -/
  | projectionGap
  | visibilityGap
  | internal (message : String)
  deriving DecidableEq, Repr

/-- A source is the whole scope, or one subject. -/
structure TransactionEventSource where
  url : String
  subject : Option String
  deriving DecidableEq, Repr

def INITIAL_TRANSACTION_VIEW : String := "development-all-visible"

section Projection

variable (tags : Digest) (scope : String)

def renderTransactionEvent (context : TransactionReadContext) (source : String) (checkpoint : ℕ)
    (event : TransactionEvent) : Except ReadFailure TransactionEvent := do
  check (1 ≤ checkpoint ∧ checkpoint ≤ maxSafeInteger ∧ event.ordinal ≤ maxSafeInteger)
    (.internal "invalid committed Event position")
  pure { event with
    source
    id := renderEventId tags context source checkpoint event.ordinal }

/-- The endpoints that the group states for its Links, in the order of the statements. -/
abbrev EndpointFacts := List (String × (Reference × Reference))

def rememberEndpoints (facts : EndpointFacts) (id : String)
    (endpoints : Option (Reference × Reference)) : Except ReadFailure EndpointFacts := do
  let stated ← require endpoints (.internal "invalid retained Event endpoint")
  check (∀ old ∈ facts.lookup id, old = stated) (.internal "inconsistent retained Link endpoints")
  pure ((id, stated) :: facts)

def linkIds (group : TransactionGroup) : List String :=
  (group.changes.filter fun change ↦ change.resourceKind == .link).map TransactionStateChange.id

def changeEndpoints (facts : EndpointFacts) (change : TransactionStateChange) :
    Except ReadFailure EndpointFacts :=
  match change with
  | .upsert .link resource =>
    if resource.endpoints.isSome then rememberEndpoints facts resource.id resource.endpoints
    else .ok facts
  | _ => .ok facts

def statesEndpoints (links : List String) (event : TransactionEvent) : Bool :=
  event.type == .linked || event.type == .unlinked ||
    (event.type == .created && links.contains event.subject)

def eventEndpoints (links : List String) (facts : EndpointFacts) (event : TransactionEvent) :
    Except ReadFailure EndpointFacts :=
  if statesEndpoints links event then rememberEndpoints facts event.subject event.data.endpoints
  else .ok facts

def endpointFacts (group : TransactionGroup) : Except ReadFailure EndpointFacts := do
  let facts ← group.changes.foldlM changeEndpoints []
  group.events.foldlM (eventEndpoints (linkIds group)) facts

/-- Whether an event belongs to a subject: its own lifecycle, its incidence, its incident updates. -/
def includesEvent (links : List String) (facts : EndpointFacts) (subject : String)
    (event : TransactionEvent) : Except ReadFailure Bool := do
  match event.type with
  | .linked | .unlinked =>
    let uri ← require event.data.incidentUri (.internal "invalid endpoint fact")
    pure (decide (uri = subject))
  | .updated =>
    if event.subject ≠ subject ∧ links.contains event.subject then
      let pair ← require (facts.lookup event.subject)
        (.internal "incident Link update lacks same-group endpoints")
      let included := decide (pair.1.uri = subject ∨ pair.2.uri = subject)
      check (¬ (included = true ∧ event.data.change = none ∧ event.data.metadataChange ≠ none))
        .projectionGap
      pure included
    else pure (decide (event.subject = subject))
  | _ => pure (decide (event.subject = subject))

def checkFraming (group : TransactionGroup) (index : ℕ) (event : TransactionEvent) :
    Except ReadFailure Unit :=
  check (event.ordinal = index ∧ event.source = scope ++ "events/" ∧
      event.transaction = group.transaction)
    (.internal "invalid retained Event framing")

def checkGroupContext (context : TransactionReadContext) (expectedPosition : ℕ) (visible : Bool)
    (group : TransactionGroup) : Except ReadFailure Unit :=
  check (group.scopeEpoch = context.scopeEpoch ∧
      group.authorizationView =
        (if visible then context.authorizationView else INITIAL_TRANSACTION_VIEW) ∧
      group.position = expectedPosition ∧ group.checkpoint = group.position ∧
      group.eventCount = group.events.length)
    (.internal "retained Event group context mismatch")

/-- Check one event and render it when the source includes it. -/
def projectEvent (context : TransactionReadContext) (source : TransactionEventSource)
    (visible : Bool) (group : TransactionGroup) (facts : EndpointFacts)
    (entry : TransactionEvent × ℕ) : Except ReadFailure (List TransactionEvent) := do
  checkFraming scope group entry.2 entry.1
  if visible then
    let included ← match source.subject with
      | none => pure true
      | some subject => includesEvent (linkIds group) facts subject entry.1
    if included then do
      let rendered ← renderTransactionEvent tags context source.url group.checkpoint entry.1
      pure [rendered]
    else pure []
  else pure []

def projectTransactionEventGroup (context : TransactionReadContext)
    (source : TransactionEventSource) (expectedPosition : ℕ) (visible : Bool)
    (group : TransactionGroup) : Except ReadFailure (List TransactionEvent) := do
  checkGroupContext context expectedPosition visible group
  let facts ← endpointFacts group
  let projected ← group.events.zipIdx.mapM
    (projectEvent tags scope context source visible group facts)
  pure projected.flatten

/-- A group as the changefeed shows it; to a view without access it only advances. -/
inductive TransactionChangeGroup where
  | visible (scopeEpoch authorizationView checkpoint : String) (position previousPosition : ℕ)
      (transaction : String) (changes : List TransactionStateChange)
      (events : List TransactionEvent)
  | advance (scopeEpoch authorizationView checkpoint : String) (position previousPosition : ℕ)
  deriving DecidableEq

namespace TransactionChangeGroup

def checkpoint : TransactionChangeGroup → String
  | visible _ _ checkpoint _ _ _ _ _ => checkpoint
  | advance _ _ checkpoint _ _ => checkpoint

def position : TransactionChangeGroup → ℕ
  | visible _ _ _ position _ _ _ _ => position
  | advance _ _ _ position _ => position

def changes : TransactionChangeGroup → List TransactionStateChange
  | visible _ _ _ _ _ _ changes _ => changes
  | advance _ _ _ _ _ => []

end TransactionChangeGroup

def projectTransactionChangeGroup (context : TransactionReadContext) (position : ℕ)
    (visible : Bool) (group : TransactionGroup) : Except ReadFailure TransactionChangeGroup := do
  check (group.previousPosition + 1 = position ∧
      0 < group.changes.length + group.events.length)
    (.internal "invalid retained change group framing")
  check (group.changes.map TransactionStateChange.id).Nodup
    (.internal "invalid retained state change")
  let events ← projectTransactionEventGroup tags scope context
    { url := scope ++ "events/", subject := none } position visible group
  let checkpoint := transactionCheckpoint tags scope context position
  if visible then
    pure (.visible group.scopeEpoch group.authorizationView checkpoint group.position
      group.previousPosition group.transaction group.changes events)
  else
    pure (.advance context.scopeEpoch context.authorizationView checkpoint group.position
      group.previousPosition)

end Projection

end Bdp.Transaction
