import Bdp.Library.UrlPath
import Bdp.Recovery.Tables
import Bdp.Retained.ObjectEdits
import Bdp.Transaction.Groups

/-!
# Records, contracts and the owned transaction

What the Resource evaluator reads: live rows with their decoded bodies, the identity ledger, live
aliases, installed Types and the allocators of one member; and the policy, limits and contracts that
it is configured with. A body is kept as the record that its text writes; whether the record parser
takes the text back is part of the configuration.
-/

namespace Bdp.Evaluator

open Recovery (ResourceKind ResourceShape)
open Retained (Json JsonObject RevisionProvenanceInput ObjectChange)
open Transaction (Reference)
open UrlPath (Scope)

structure VersionFields where
  id : String
  type : String
  revision : String
  properties : JsonObject
  metadata : JsonObject
  revisionProvenance : Option JsonObject
  deriving DecidableEq

structure LinkRecord extends VersionFields where
  source : Reference
  target : Reference
  deriving DecidableEq

/-- Owned Links by Link Type, in the order in which the Types are listed. -/
abbrev OwnedLinks := List (String × List LinkRecord)

structure BeadRecord extends VersionFields where
  ownedLinks : Option OwnedLinks
  deriving DecidableEq

inductive ResourceRecord where
  | bead (record : BeadRecord)
  | link (record : LinkRecord)
  deriving DecidableEq

namespace ResourceRecord

def fields : ResourceRecord → VersionFields
  | .bead record => record.toVersionFields
  | .link record => record.toVersionFields

def kind : ResourceRecord → ResourceKind
  | .bead _ => .bead
  | .link _ => .link

def id (record : ResourceRecord) : String := record.fields.id

/-- A Link itself, or the Links that a Bead lists as its own. -/
def links : ResourceRecord → List LinkRecord
  | .bead record => (record.ownedLinks.getD []).flatMap Prod.snd
  | .link record => [record]

end ResourceRecord

/-- A row: its key, its kind with the endpoint columns, and its body. -/
structure StoredResource where
  id : String
  shape : ResourceShape
  body : ResourceRecord
  deriving DecidableEq

def StoredResource.kind (stored : StoredResource) : ResourceKind := stored.shape.kind

inductive RevisionAllocation where
  | text (revision : String)
  | unsafeAllocation
  deriving DecidableEq, Repr

/-- What one member reads of the store that owns it. -/
structure ResourceTransaction where
  resources : Table StoredResource
  identityWasCommitted : String → Bool
  «alias» : String → Option String
  installedTypes : Table String
  /-- An allocation that fails ends in an internal error. -/
  allocateResourceId : ResourceKind → Except String String
  /-- The revision of the n-th allocation of the member. -/
  allocateRevision : ℕ → RevisionAllocation

namespace ResourceTransaction

variable (tx : ResourceTransaction)

def resource (id : String) : Option StoredResource := tx.resources[id]?

def rows : List StoredResource := tx.resources.toList.map Prod.snd

def incidentLinks (id : String) : List StoredResource :=
  tx.rows.filter fun row ↦ row.shape.source == some id || row.shape.target == some id

def outgoingLinks (source : String) : List StoredResource :=
  tx.rows.filter fun row ↦ row.shape.source == some source

end ResourceTransaction

section Contracts

inductive ExternalEndpoint where
  | none
  | bead
  | any
  deriving DecidableEq, Repr

structure EndpointConstraint where
  conformsTo : List String
  external : ExternalEndpoint
  deriving DecidableEq, Repr

/-- Maxima of owned outgoing Links by Link Type, each listed once; `*` bounds all of them
together. -/
structure OwnedOutgoingDeclarations where
  maxima : List (String × ℕ)
  distinct : (maxima.map Prod.fst).Nodup
  deriving DecidableEq, Repr

def OwnedOutgoingDeclarations.max (declarations : OwnedOutgoingDeclarations) (type : String) :
    Option ℕ := declarations.maxima.lookup type

/-- The Link Types that are declared by name. -/
def OwnedOutgoingDeclarations.names (declarations : OwnedOutgoingDeclarations) : List String :=
  (declarations.maxima.map Prod.fst).filter fun type ↦ type != "*"

inductive Describes where
  | bead (ownsOutgoing : Option OwnedOutgoingDeclarations)
  | link (source target : EndpointConstraint)
  deriving DecidableEq, Repr

def Describes.kind : Describes → ResourceKind
  | .bead _ => .bead
  | .link _ _ => .link

structure TypeDescriptor where
  id : String
  conformsTo : List String
  describes : Describes
  /-- Whether the descriptor declares a properties schema. -/
  propertiesSchema : Bool
  deriving DecidableEq, Repr

def TypeDescriptor.ownsOutgoing (descriptor : TypeDescriptor) :
    Option OwnedOutgoingDeclarations :=
  match descriptor.describes with
  | .bead ownsOutgoing => ownsOutgoing
  | .link _ _ => none

structure ValidationDiagnostic where
  message : String
  type : Option String
  schemaLocation : Option String
  instanceLocation : Option String
  document : Option String
  deriving DecidableEq, Repr

/-- What a compiled properties schema reports of one failure. -/
structure PropertyDiagnostic where
  message : String
  schemaLocation : String
  instanceLocation : String
  deriving DecidableEq, Repr

/-- A contract whose descriptor parses. A validator reports every failure, in order, and none for
valid properties. -/
structure InstalledResourceContract where
  descriptor : TypeDescriptor
  validateProperties : Option (JsonObject → List PropertyDiagnostic)

end Contracts

structure ResourceMutationPolicy where
  canRead : ResourceRecord → Bool
  canCreate : ResourceRecord → Bool
  canWrite : ResourceRecord → Option ResourceRecord → Bool

inductive EndpointSide where
  | source
  | target
  deriving DecidableEq, Repr

def EndpointSide.text : EndpointSide → String
  | .source => "source"
  | .target => "target"

structure MaximumEndpointMultiplicityPolicy where
  linkConformsTo : String
  endpoint : EndpointSide
  max : ℕ
  deriving DecidableEq, Repr

structure ResourceEvaluationLimits where
  diagnosticCount : Option ℕ
  diagnosticBytes : Option ℕ
  patchOperations : Option ℕ
  patchPathBytes : Option ℕ
  patchPathDepth : Option ℕ
  propertiesBytes : Option ℕ
  representationBytes : Option ℕ
  deriving DecidableEq, Repr

def ResourceEvaluationLimits.unlimited : ResourceEvaluationLimits :=
  { diagnosticCount := none, diagnosticBytes := none, patchOperations := none
    patchPathBytes := none, patchPathDepth := none, propertiesBytes := none
    representationBytes := none }

/-- Lengths in bytes of the texts that limits are about. -/
structure TextSizes where
  diagnostic : ValidationDiagnostic → ℕ
  properties : JsonObject → ℕ
  record : ResourceRecord → ℕ

structure ResourceEvaluationOptions where
  scope : Scope
  /-- The contract compiled from exactly the installed artifact. -/
  contracts : String → String → Option InstalledResourceContract
  policy : ResourceMutationPolicy
  maximumEndpointMultiplicity : List MaximumEndpointMultiplicityPolicy
  /-- The text of the commit instant; none when the clock is unusable. -/
  observeCommitTime : Option String
  recordChangeContext : Bool
  limits : ResourceEvaluationLimits
  sizes : TextSizes
  /-- Whether the record parser takes back the text of a record. -/
  readable : ResourceRecord → Bool
  /-- Whether a URI outside the Scope is shaped like a Bead of another one. -/
  isExternalBead : String → Bool

structure ReadUpdateProblem where
  family : String
  code : String
  status : ℕ
  retry : String
  diagnostics : List ValidationDiagnostic
  diagnosticsTruncated : Bool
  deriving DecidableEq, Repr

/-- Why a mutation ends without success. -/
inductive Stop where
  | failure (problem : ReadUpdateProblem)
  /-- An internal error: the owner rolls the member back and reports no outcome. -/
  | fault (message : String)
  deriving DecidableEq, Repr

inductive FailureCode where
  | resourceNotFound
  | forbidden
  | identityTaken
  | aliasPathTaken
  | typeNotInstalled
  | revisionMismatch
  | incidentLinksExist
  | aggregateConstraintViolation
  | limitExceeded
  | revisionAllocationUnsafe
  deriving DecidableEq, Repr

namespace FailureCode

def text : FailureCode → String
  | .resourceNotFound => "resource-not-found"
  | .forbidden => "forbidden"
  | .identityTaken => "identity-taken"
  | .aliasPathTaken => "alias-path-taken"
  | .typeNotInstalled => "type-not-installed"
  | .revisionMismatch => "revision-mismatch"
  | .incidentLinksExist => "incident-links-exist"
  | .aggregateConstraintViolation => "aggregate-constraint-violation"
  | .limitExceeded => "limit-exceeded"
  | .revisionAllocationUnsafe => "revision-allocation-unsafe"

/-- The `failures` table: family, status and retry of each code. -/
def row : FailureCode → String × ℕ × String
  | .resourceNotFound => ("not-found", 404, "after-state-change")
  | .forbidden => ("authorization", 403, "after-state-change")
  | .identityTaken => ("conflict", 409, "never")
  | .aliasPathTaken => ("conflict", 409, "after-state-change")
  | .typeNotInstalled => ("validation", 422, "after-state-change")
  | .revisionMismatch => ("conflict", 409, "after-state-change")
  | .incidentLinksExist => ("conflict", 409, "after-state-change")
  | .aggregateConstraintViolation => ("conflict", 409, "after-state-change")
  | .limitExceeded => ("size", 413, "never")
  | .revisionAllocationUnsafe => ("conflict", 409, "after-state-change")

def problem (code : FailureCode) : ReadUpdateProblem :=
  { family := code.row.1, code := code.text, status := code.row.2.1, retry := code.row.2.2
    diagnostics := [], diagnosticsTruncated := false }

end FailureCode

def refusal (code : FailureCode) : Stop := .failure code.problem

section Mutations

structure CreateInput where
  type : String
  id : Option String
  properties : Option JsonObject
  metadata : Option JsonObject
  revisionProvenance : Option RevisionProvenanceInput

structure UpdateInput where
  subject : String
  propertiesChange : Option ObjectChange
  metadataChange : Option ObjectChange
  expectedRevision : Option String
  revisionProvenance : Option RevisionProvenanceInput

inductive ResourceMutation where
  | createBead (input : CreateInput)
  | createLink (input : CreateInput) (source target : Reference)
  | update (kind : ResourceKind) (input : UpdateInput)
  | delete (kind : ResourceKind) (subject : String) (expectedRevision : Option String)

namespace ResourceMutation

def resourceKind : ResourceMutation → ResourceKind
  | .createBead _ => .bead
  | .createLink _ _ _ => .link
  | .update kind _ => kind
  | .delete kind _ _ => kind

def creating : ResourceMutation → Bool
  | .createBead _ => true
  | .createLink _ _ _ => true
  | _ => false

def deleting : ResourceMutation → Bool
  | .delete _ _ _ => true
  | _ => false

def expectedRevision : ResourceMutation → Option String
  | .update _ input => input.expectedRevision
  | .delete _ _ expectedRevision => expectedRevision
  | _ => none

def revisionProvenance : ResourceMutation → Option RevisionProvenanceInput
  | .createBead input => input.revisionProvenance
  | .createLink input _ _ => input.revisionProvenance
  | .update _ input => input.revisionProvenance
  | .delete _ _ _ => none

end ResourceMutation

inductive InputPointer where
  | id
  | bead
  | link
  | source
  | target
  deriving DecidableEq, Repr

structure ResourceReferenceResolution where
  inputPointer : InputPointer
  original : Reference
  resolved : Reference
  deriving DecidableEq, Repr

inductive MutationOutcome where
  | created (resource : ResourceRecord) (source : Option (String × String))
  | updated (resource : ResourceRecord) (source : Option (String × String))
  | deleted (kind : ResourceKind) (id type revision : String) (source : Option (String × String))
  deriving DecidableEq

structure ResourceEvaluation where
  outcome : MutationOutcome
  resolutions : List ResourceReferenceResolution
  writes : List StoredResource
  deleted : Option String
  deriving DecidableEq

end Mutations

end Bdp.Evaluator
