import Mathlib.Data.List.Dedup
import Bdp.Retained.Contract

/-!
# Lifecycle facts

The fact a committed transition records, and the Beads that a transition of a Link is incident to.
A deletion of a Bead in a historical store ends with a terminal version, whose revision replaces
the one of the final live record in the fact.
-/

namespace Bdp.Retained

/-- An update always names the revision it replaces. -/
inductive LifecycleVerb where
  | create
  | update (previousRevision : String)
  | delete
  deriving DecidableEq, Repr

namespace LifecycleVerb

def operation : LifecycleVerb → ResourceKind → Operation
  | .create, .bead => .createBead
  | .create, .link => .createLink
  | .update _, .bead => .updateBead
  | .update _, .link => .updateLink
  | .delete, .bead => .deleteBead
  | .delete, .link => .deleteLink

end LifecycleVerb

/-- The version that ends a live Bead in a historical store. -/
structure TerminalVersion where
  id : String
  revision : String
  previousRevision : String
  deriving DecidableEq, Repr

structure LifecycleFact where
  verb : LifecycleVerb
  state : ResourceState
  source : String
  id : String
  transaction : String
  time : String
  terminal : Option TerminalVersion
  deriving DecidableEq

def lifecycleFact (verb : LifecycleVerb) (state : ResourceState)
    (source id transaction time : String) : LifecycleFact :=
  { verb, state, source, id, transaction, time, terminal := none }

namespace LifecycleFact

def operation (fact : LifecycleFact) : Operation := fact.verb.operation fact.state.kind

/-- The revision the fact carries: a deletion repeats the final live one unless it is terminal. -/
def revision (fact : LifecycleFact) : String :=
  match fact.terminal with
  | some terminal => terminal.revision
  | none => fact.state.resource.revision

def previousRevision (fact : LifecycleFact) : Option String :=
  match fact.verb, fact.terminal with
  | .update previous, _ => some previous
  | _, some terminal => some terminal.previousRevision
  | _, none => none

def effect (fact : LifecycleFact) : Json :=
  match fact.verb with
  | .create => .object [("operation", .string fact.operation.text),
      ("id", .string fact.state.resource.id), ("resource", fact.state.toJson)]
  | .update _ => .object [("operation", .string fact.operation.text),
      (fact.state.kind.text, .string fact.state.resource.id), ("resource", fact.state.toJson)]
  | .delete => .object [("operation", .string fact.operation.text),
      (fact.state.kind.text, .string fact.state.resource.id), ("deleted", eventDeleted fact.state)]

/-- The event body; a terminal predecessor is appended after the effect. -/
def toJson (fact : LifecycleFact) : Json :=
  .object ([("id", .string fact.id), ("source", .string fact.source), ("time", .string fact.time),
    ("origin", .string "write"), ("transaction", .string fact.transaction),
    ("representation", .string "postimage"), ("revision", .string fact.revision)] ++
    (match fact.verb with
      | .update previous => [("previousRevision", .string previous)]
      | _ => []) ++
    [("effect", fact.effect)] ++
    (match fact.verb, fact.terminal with
      | .update _, _ => []
      | _, some terminal => [("previousRevision", .string terminal.previousRevision)]
      | _, none => []))

end LifecycleFact

def isLocal (scope uri : String) : Bool := uri.startsWith scope

/-- The endpoints of one state that lie in the Scope. -/
def localEndpoints (scope : String) (state : ResourceState) : List String :=
  (state.endpoints.map referenceUri).filter (isLocal scope)

/-- The in-Scope Beads that the states before and after a transition are incident to. -/
def incidentBeads (scope : String) (states : List ResourceState) : List String :=
  (states.flatMap (localEndpoints scope)).dedup

theorem mem_localEndpoints {scope uri : String} {state : ResourceState} :
    uri ∈ localEndpoints scope state ↔
      (∃ reference ∈ state.endpoints, referenceUri reference = uri) ∧ isLocal scope uri := by
  simp [localEndpoints]

theorem incidentBeads_nodup (scope : String) (states : List ResourceState) :
    (incidentBeads scope states).Nodup := List.nodup_dedup _

end Bdp.Retained
