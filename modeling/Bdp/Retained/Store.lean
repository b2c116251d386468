import Bdp.Library.Checked
import Bdp.Retained.Events
import Bdp.Retained.Prepared

/-!
# Retained store state

The tables of a retained store with their columns decoded, and the statements that write them. An
insertion that violates a primary key, a uniqueness or a foreign key constraint fails as the
database fails it. Everything a statement does not name stays as it is.
-/

namespace Bdp.Retained

/-- How a callback inside a transaction may end without a result. -/
inductive Failure where
  /-- A request error that the transport answers; nothing is decided. -/
  | request (problem : Problem)
  /-- An internal inconsistency or a capacity that is used up. -/
  | internal (message : String)
  /-- An error raised by the database itself. -/
  | database (message : String)
  deriving DecidableEq

/-- Database errors carry a code, and a coded error fences the owner. -/
def Failure.fences : Failure → Bool
  | .database _ => true
  | _ => false

structure HistoricalUpdateContext where
  fromRevision : String
  previousRevision : String
  deriving DecidableEq, Repr

def HistoricalUpdateContext.toJson (context : HistoricalUpdateContext) : Json :=
  .object [("fromRevision", .string context.fromRevision),
    ("previousRevision", .string context.previousRevision)]

/-- The body of a historical version: a live record with its source context, or a terminal. -/
inductive VersionBody where
  | live (resource : RetainedBead) (historicalUpdate : Option HistoricalUpdateContext)
  | deleted (terminal : TerminalVersion)
  deriving DecidableEq

namespace VersionBody

def resource : VersionBody → Option RetainedBead
  | .live resource _ => some resource
  | .deleted _ => none

def terminalVersion : VersionBody → Option TerminalVersion
  | .live _ _ => none
  | .deleted terminal => some terminal

def historicalUpdate : VersionBody → Option HistoricalUpdateContext
  | .live _ context => context
  | .deleted _ => none

def revision : VersionBody → String
  | .live resource _ => resource.revision
  | .deleted terminal => terminal.revision

end VersionBody

structure EventRow where
  position : ℕ
  subject : String
  fact : LifecycleFact
  deriving DecidableEq

structure VersionRow where
  id : String
  revision : String
  body : VersionBody
  position : ℕ
  deriving DecidableEq

structure OutcomeRow where
  decision : ℕ
  principal : String
  key : String
  operation : Operation
  identity : String
  witnesses : List AliasWitness
  status : ℕ
  body : String
  eventPosition : Option ℕ
  deriving DecidableEq

inductive CursorMode where
  | next
  | resume
  deriving DecidableEq, Repr

structure CursorRow where
  principal : String
  source : String
  subject : String
  afterPosition : ℕ
  throughPosition : ℕ
  pageLimit : ℕ
  mode : CursorMode
  expires : ℕ
  deriving DecidableEq, Repr

/-- How many identifiers each purpose has drawn. -/
structure Draws where
  identity : ℕ
  revision : ℕ
  event : ℕ
  transaction : ℕ
  boundary : ℕ
  cursor : ℕ
  deriving DecidableEq, Repr

structure Store where
  identities : Table ResourceKind
  resources : Table ResourceState
  aliases : Table String
  events : List EventRow
  incidence : List (ℕ × String)
  historicalVersions : List VersionRow
  outcomes : List OutcomeRow
  decisionFacts : List (ℕ × ℕ)
  boundaries : List (ℕ × String)
  cursors : Table CursorRow
  /-- The `decisions` row of the metadata table. -/
  decisions : ℕ
  draws : Draws

variable (config : StoreConfiguration)

/-- A newly provisioned store has only the boundary of the empty event log. -/
def Store.empty : Store where
  identities := ∅
  resources := ∅
  aliases := ∅
  events := []
  incidence := []
  historicalVersions := []
  outcomes := []
  decisionFacts := []
  boundaries := [(0, config.uuids.uuid .boundary 0)]
  cursors := ∅
  decisions := 0
  draws := { identity := 0, revision := 0, event := 0, transaction := 0, boundary := 1
             cursor := 0 }

/-- The largest integer that a number represents together with all smaller ones. -/
def MAX_SAFE_INTEGER : ℕ := 2 ^ 53 - 1

def MAX_TIME : ℕ := 8640000000000000

/-- `now`: the owner clock has to stay within the range of dates. -/
def now (time : ℕ) : Except Failure ℕ := do
  check (time ≤ MAX_TIME) (.internal "invalid owner clock")
  pure time

theorem now_eq_ok {time instant : ℕ} : now time = .ok instant ↔ time ≤ MAX_TIME ∧ instant = time := by
  rw [now, check_bind_eq_ok, Except.pure_eq_ok_iff]

namespace Store

variable (store : Store)

/-- Position of the last committed event, zero before the first. -/
def head : ℕ := (store.events.map EventRow.position).foldr max 0

def isIdentity (id : String) : Bool := store.identities.contains id

def isAliasLocator (uri : String) : Bool := store.aliases.contains uri

def aliasLookup : AliasLookup := fun uri ↦
  if store.isIdentity uri ∨ config.isReserved uri then none
  else match store.aliases[uri]? with
    | some target => some (some target)
    | none => if config.navigation.contains uri then some none else none

/-- A live resource of the kind; a body is always read under the kind of its identity row. -/
def currentState (id : String) (kind : Option ResourceKind) : Option ResourceState :=
  match store.resources[id]?, store.identities[id]? with
  | some state, some rowKind =>
    if state.kind = rowKind ∧ (kind = none ∨ kind = some rowKind) then some state else none
  | _, _ => none

/-- The latest version of an identity, or the version with a given revision. -/
def historicalVersion (id : String) (revision : Option String) : Option VersionBody :=
  if config.historicalMode then
    (match revision with
      | none => (store.historicalVersions.filter fun (row : VersionRow) ↦ row.id == id).getLast?
      | some revision =>
        store.historicalVersions.find? fun (row : VersionRow) ↦ row.id == id && row.revision == revision).map
      VersionRow.body
  else none

/-- A previous decision under the same principal and key. -/
def previousOutcome (principal key : String) : Option OutcomeRow :=
  store.outcomes.find? fun row ↦ row.principal == principal && row.key == key

def insertIdentity (id : String) (kind : ResourceKind) : Except Failure Store := do
  check (id ∉ store.identities) (.database "identities")
  pure { store with identities := store.identities.insert id kind }

def insertResource (id : String) (state : ResourceState) : Except Failure Store := do
  check (id ∉ store.resources ∧ id ∈ store.identities) (.database "resources")
  pure { store with resources := store.resources.insert id state }

/-- `UPDATE resources`, which writes nothing when the row is absent. -/
def updateResource (id : String) (state : ResourceState) : Store :=
  if id ∈ store.resources then { store with resources := store.resources.insert id state }
  else store

/-- `INSERT ... ON CONFLICT(id) DO UPDATE`. -/
def putResource (id : String) (state : ResourceState) : Except Failure Store := do
  check (id ∈ store.identities) (.database "resources")
  pure { store with resources := store.resources.insert id state }

def deleteResource (id : String) : Store :=
  { store with resources := store.resources.erase id }

def putAlias (locator target : String) : Except Failure Store := do
  check (target ∈ store.identities) (.database "aliases")
  pure { store with aliases := store.aliases.insert locator target }

def deleteAlias (locator : String) : Store :=
  { store with aliases := store.aliases.erase locator }

def insertEvent (row : EventRow) : Except Failure Store := do
  check (row.position ∉ store.events.map EventRow.position ∧ row.subject ∈ store.identities)
    (.database "events")
  pure { store with events := store.events ++ [row] }

def insertVersion (row : VersionRow) : Except Failure Store := do
  check (row.id ∈ store.identities ∧ row.position ∈ store.events.map EventRow.position ∧
      row.position ∉ store.historicalVersions.map VersionRow.position ∧
      (row.id, row.revision) ∉ store.historicalVersions.map fun old ↦ (old.id, old.revision))
    (.database "historical_versions")
  pure { store with historicalVersions := store.historicalVersions ++ [row] }

def insertIncidence (position : ℕ) (bead : String) : Except Failure Store := do
  check (position ∈ store.events.map EventRow.position ∧ bead ∈ store.identities ∧
    (position, bead) ∉ store.incidence) (.database "incidence")
  pure { store with incidence := store.incidence ++ [(position, bead)] }

def insertBoundary (position : ℕ) : Except Failure Store := do
  let token := config.uuids.uuid .boundary store.draws.boundary
  check (position ∉ store.boundaries.map Prod.fst ∧ token ∉ store.boundaries.map Prod.snd)
    (.database "boundaries")
  pure { store with
    boundaries := store.boundaries ++ [(position, token)]
    draws := { store.draws with boundary := store.draws.boundary + 1 } }

def insertDecisionFact (decision position : ℕ) : Except Failure Store := do
  check (decision ∈ store.outcomes.map OutcomeRow.decision ∧
      position ∈ store.events.map EventRow.position ∧
      position ∉ store.decisionFacts.map Prod.snd) (.database "decision_facts")
  pure { store with decisionFacts := store.decisionFacts ++ [(decision, position)] }

/-- The decision column, the key and the event position are each unique. -/
def insertOutcome (row : OutcomeRow) : Except Failure Store := do
  check (row.decision ∉ store.outcomes.map OutcomeRow.decision ∧
      (store.previousOutcome row.principal row.key).isNone ∧
      (∀ position ∈ row.eventPosition,
        position ∈ store.events.map EventRow.position ∧
          some position ∉ store.outcomes.map OutcomeRow.eventPosition))
    (.database "outcomes")
  pure { store with outcomes := store.outcomes ++ [row] }

end Store

end Bdp.Retained
