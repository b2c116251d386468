import Mathlib.Data.Nat.Notation
import Bdp.Library.Json

/-!
# Retained resource records and problems

The records a retained store keeps for Beads and Links, the problem documents it answers with, and
the materialization of a record from an admitted input. A resource state is a Bead record or a
Link record, so a Link always has both endpoints.
-/

namespace Bdp.Retained

/-- Admitted JSON: finite binary64 numbers are compared as the rationals they denote. -/
abbrev Json := JsonValue ℚ

abbrev JsonObject := List (String × Json)

def jsonNat (value : ℕ) : Json := .number (value : ℚ)

/-- A member that is written only when its value is defined. -/
def optionalMember (name : String) (value : Option Json) : JsonObject :=
  value.toList.map fun present ↦ (name, present)

def RETAINED_SPEC : String := "https://github.com/gastownhall/bdp/schemas/bdp-v0.1.schema.json"

def RETAINED_MEDIA : String := "application/vnd.bdp.v0.1+json"

inductive ResourceKind where
  | bead
  | link
  deriving DecidableEq, Repr

/-- The `kind` column and member text. -/
def ResourceKind.text : ResourceKind → String
  | .bead => "bead"
  | .link => "link"

/-- The eight ordinary operations and the atomic batch, as the outcome column names them. -/
inductive Operation where
  | createBead
  | updateBead
  | deleteBead
  | createLink
  | updateLink
  | deleteLink
  | putAlias
  | deleteAlias
  | batch
  deriving DecidableEq, Repr

def Operation.text : Operation → String
  | .createBead => "createBead"
  | .updateBead => "updateBead"
  | .deleteBead => "deleteBead"
  | .createLink => "createLink"
  | .updateLink => "updateLink"
  | .deleteLink => "deleteLink"
  | .putAlias => "putAlias"
  | .deleteAlias => "deleteAlias"
  | .batch => "batch"

/-- An endpoint names a URI, floating or pinned to one revision. -/
inductive EndpointReference where
  | floating (uri : String)
  | pinned (uri revision : String)
  deriving DecidableEq, Repr

def referenceUri : EndpointReference → String
  | .floating uri => uri
  | .pinned uri _ => uri

def EndpointReference.toJson : EndpointReference → Json
  | .floating uri => .string uri
  | .pinned uri revision => .object [("uri", .string uri), ("revision", .string revision)]

structure RetainedBead where
  id : String
  /-- A Type reference: a URI, or an object of a URI and a revision. -/
  type : Json
  revision : String
  properties : JsonObject
  metadata : JsonObject
  revisionProvenance : Option Json
  deriving DecidableEq

structure RetainedLink extends RetainedBead where
  source : EndpointReference
  target : EndpointReference
  deriving DecidableEq

inductive ResourceState where
  | bead (resource : RetainedBead)
  | link (resource : RetainedLink)
  deriving DecidableEq

namespace ResourceState

def kind : ResourceState → ResourceKind
  | .bead _ => .bead
  | .link _ => .link

/-- The members a Bead and a Link record share. -/
def resource : ResourceState → RetainedBead
  | .bead resource => resource
  | .link resource => resource.toRetainedBead

/-- Source and target of a Link, none for a Bead. -/
def endpoints : ResourceState → List EndpointReference
  | .bead _ => []
  | .link resource => [resource.source, resource.target]

end ResourceState

def RetainedBead.members (resource : RetainedBead) : JsonObject :=
  [("id", .string resource.id), ("type", resource.type), ("revision", .string resource.revision),
    ("properties", .object resource.properties), ("metadata", .object resource.metadata)] ++
    optionalMember "revisionProvenance" resource.revisionProvenance

/-- The stored body of a record, in the order its materialization writes the members. -/
def ResourceState.toJson : ResourceState → Json
  | .bead resource => .object resource.members
  | .link resource => .object (resource.toRetainedBead.members ++
      [("source", resource.source.toJson), ("target", resource.target.toJson)])

/-- The identity members that a deletion answers with. -/
def deletedMembers (state : ResourceState) : JsonObject :=
  [("resourceKind", .string state.kind.text),
    ("resource", .object [("id", .string state.resource.id), ("type", state.resource.type),
      ("revision", .string state.resource.revision)])]

def deletedIdentity (state : ResourceState) : Json := .object (deletedMembers state)

/-- A deletion fact also keeps the endpoints of the final live Link. -/
def eventDeleted : ResourceState → Json
  | .bead resource => .object (deletedMembers (.bead resource))
  | .link resource => .object (deletedMembers (.link resource) ++
      [("source", resource.source.toJson), ("target", resource.target.toJson)])

/-- A problem document before it is serialized; `details` follow the four common members. -/
structure Problem where
  code : String
  status : ℕ
  retry : String
  details : JsonObject
  deriving DecidableEq

namespace Problem

/-- The family that the problem type names. -/
def family (code : String) (status : ℕ) : String :=
  if code.startsWith "idempotency-" then
    if code = "idempotency-expired" then "gone" else "conflict"
  else if code = "identity-taken" ∨ code = "revision-mismatch" ∨ code = "incident-links-exist" ∨
      code = "alias-path-taken" then "conflict"
  else if code = "resource-not-found" ∨ code = "revision-unknown" then "not-found"
  else if code = "unauthenticated" then "authentication"
  else if code = "validation-failed" then "validation"
  else if code = "temporarily-unavailable" then "unavailable"
  else if code = "foreign-view" then "conflict"
  else if code = "cursor-expired" then "gone"
  else if status = 413 then "size"
  else "request"

def toJson (problem : Problem) : Json :=
  .object ([("type", .string ("https://github.com/gastownhall/bdp/problems/" ++
      family problem.code problem.status)),
    ("code", .string problem.code), ("status", jsonNat problem.status),
    ("retry", .string problem.retry)] ++ problem.details)

end Problem

def problem (code : String) (status : ℕ) (retry : String) : Problem :=
  { code, status, retry, details := [] }

/-- A validation problem with one diagnostic. -/
def validationProblem (diagnostic : JsonObject) : Problem :=
  { code := "validation-failed", status := 422, retry := "never"
    details := [("diagnostics", .array [.object diagnostic])] }

def identityTaken : Problem := problem "identity-taken" 409 "never"

def aliasPathTaken : Problem := problem "alias-path-taken" 409 "after-state-change"

def resourceNotFound : Problem := problem "resource-not-found" 404 "after-state-change"

def revisionMismatch : Problem := problem "revision-mismatch" 409 "after-state-change"

def revisionUnknown : Problem := problem "revision-unknown" 404 "after-state-change"

def incidentLinksExist : Problem := problem "incident-links-exist" 409 "after-state-change"

def limitExceeded : Problem := problem "limit-exceeded" 413 "never"

def temporarilyUnavailable : Problem := problem "temporarily-unavailable" 503 "after-delay"

def idempotencyConflict : Problem := problem "idempotency-conflict" 409 "never"

/-- The provenance a request supplies: an omitted context is undetermined, an explicit null is
known absence. -/
structure RevisionProvenanceInput where
  actor : Option JsonObject
  agent : Option (Option String)
  message : Option (Option String)
  deriving DecidableEq

namespace RevisionProvenanceInput

def nullable (value : Option String) : Json :=
  match value with
  | some text => .string text
  | none => .null

def toJson (input : RevisionProvenanceInput) : Json :=
  .object (optionalMember "actor" (input.actor.map .object) ++
    optionalMember "agent" (input.agent.map nullable) ++
    optionalMember "message" (input.message.map nullable))

/-- Whether the input has any member at all. -/
def isEmpty (input : RevisionProvenanceInput) : Bool :=
  input.actor.isNone && input.agent.isNone && input.message.isNone

/-- The recorded state of one context value. -/
def context : Option (Option String) → Json
  | none => .object [("state", .string "undetermined")]
  | some none => .object [("state", .string "absent")]
  | some (some value) => .object [("state", .string "present"), ("value", .string value)]

/-- The provenance record that a materialized revision keeps. -/
def materialize (input : RevisionProvenanceInput) (time : String) : Json :=
  .object (optionalMember "actor" (input.actor.map .object) ++
    if input.agent.isNone && input.message.isNone then [] else
      [("committedAt", .object [("state", .string "present"), ("value", .string time)]),
        ("agent", context input.agent), ("message", context input.message)])

end RevisionProvenanceInput

/-- A new record with its own revision; empty provenance is the same as none. -/
def materializeBead (type : Json) (properties metadata : JsonObject)
    (provenance : Option RevisionProvenanceInput) (id revision time : String) : RetainedBead where
  id
  type
  revision
  properties
  metadata
  revisionProvenance := (provenance.filter fun input ↦ !input.isEmpty).map (·.materialize time)

/-- A record of the kind; a Link needs both endpoints, which its admission promises. -/
def resourceState (kind : ResourceKind) (resource : RetainedBead)
    (source target : Option EndpointReference) : Option ResourceState :=
  match kind with
  | .bead => some (.bead resource)
  | .link =>
    match source, target with
    | some source, some target => some (.link { resource with source, target })
    | _, _ => none

end Bdp.Retained
