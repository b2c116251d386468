import Bdp.Retained.ObjectEdits
import Bdp.Retained.ReferenceComparison

/-!
# Prepared requests

The immutable invocations that admission hands to the store. Each carries, next to its decoded
members, the comparison registered for it and the facts its admission has established: an explicit
identity is canonical, the captured slots are the admitted references, and the normalized input
names the members that recovery reads back.
-/

namespace Bdp.Retained

variable (config : StoreConfiguration)

/-- `typeReference`: an HTTP URI, or an object of an HTTP URI and a nonempty revision. -/
def isTypeReference (httpUri : String → Bool) : Json → Bool
  | .string uri => httpUri uri
  | .object members =>
    members.all (fun entry ↦ entry.1 == "uri" || entry.1 == "revision") &&
      (match members.lookup "uri" with
        | some (.string uri) => httpUri uri
        | _ => false) &&
      (match members.lookup "revision" with
        | some (.string revision) => revision != ""
        | _ => false)
  | _ => false

/-- The edits a request makes, however it names its subject. -/
structure EditFields where
  type : Option Json
  properties : Option JsonObject
  metadata : Option JsonObject
  propertiesChange : Option ObjectChange
  metadataChange : Option ObjectChange
  expectedRevision : Option String
  fromRevision : Option String
  provenance : Option RevisionProvenanceInput
  source : Option EndpointReference
  target : Option EndpointReference

def EditFields.empty : EditFields :=
  { type := none, properties := none, metadata := none, propertiesChange := none
    metadataChange := none, expectedRevision := none, fromRevision := none, provenance := none
    source := none, target := none }

/-- Admitted values are objects of the language, which name every member once. -/
def EditFields.uniqueNames (edits : EditFields) : Bool :=
  edits.type.all JsonValue.uniqueNames &&
    edits.properties.all (fun members ↦ (JsonValue.object members).uniqueNames) &&
    edits.metadata.all (fun members ↦ (JsonValue.object members).uniqueNames) &&
    (edits.propertiesChange.getD [] ++ edits.metadataChange.getD []).all fun edit ↦
      edit.value.all JsonValue.uniqueNames

/-- A refusal found at admission is a validation problem that is decided like any other outcome. -/
def IsAdmissionRefusal (refusal : Option Problem) : Prop :=
  ∀ problem, refusal = some problem →
    problem.code = "validation-failed" ∧ problem.status = 422 ∧ problem.retry = "never" ∧
      problem.details.map Prod.fst ⊆ ["diagnostics", "diagnosticsTruncated"]

structure PreparedCreate where
  key : String
  comparison : CapturedComparison
  id : Option String
  type : Json
  properties : JsonObject
  metadata : JsonObject
  provenance : Option RevisionProvenanceInput
  refusal : Option Problem
  operation_eq : comparison.operation = .createBead
  slots_eq : comparison.slots = []
  input_nodup : (comparison.input.map Prod.fst).Nodup
  input_id : comparison.input.lookup "id" = id.map .string
  id_canonical : ∀ uri, id = some uri → config.navigation.canonical uri = true
  type_reference : isTypeReference config.httpUri type = true
  unique_names : type.uniqueNames = true ∧ (JsonValue.object properties).uniqueNames = true ∧
    (JsonValue.object metadata).uniqueNames = true
  refusal_validation : IsAdmissionRefusal refusal

structure PreparedUpdate where
  key : String
  comparison : CapturedComparison
  bead : String
  edits : EditFields
  refusal : Option Problem
  operation_eq : comparison.operation = .updateBead
  slots_eq : comparison.slots = [(.bead, .floating bead)]
  input_nodup : (comparison.input.map Prod.fst).Nodup
  input_bead : comparison.input.lookup "bead" = some (.string bead)
  input_fromRevision : comparison.input.lookup "fromRevision" = edits.fromRevision.map .string
  input_expectedRevision : refusal = none →
    comparison.input.lookup "expectedRevision" = edits.expectedRevision.map .string
  type_reference : ∀ type, edits.type = some type → isTypeReference config.httpUri type = true
  unique_names : edits.uniqueNames = true
  endpoints_none : edits.source = none ∧ edits.target = none
  refusal_validation : IsAdmissionRefusal refusal

structure PreparedDelete where
  key : String
  comparison : CapturedComparison
  bead : String
  expectedRevision : Option String
  operation_eq : comparison.operation = .deleteBead
  slots_eq : comparison.slots = [(.bead, .floating bead)]
  input_nodup : (comparison.input.map Prod.fst).Nodup
  input_bead : comparison.input.lookup "bead" = some (.string bead)

inductive LinkOperation where
  | createLink
  | updateLink
  | deleteLink
  deriving DecidableEq, Repr

def LinkOperation.operation : LinkOperation → Operation
  | .createLink => .createLink
  | .updateLink => .updateLink
  | .deleteLink => .deleteLink

/-- The slots of the endpoints that are present. -/
def endpointSlots (source target : Option EndpointReference) : Slots EndpointReference :=
  (source.toList.map fun reference ↦ (ReferenceSlot.source, reference)) ++
    target.toList.map fun reference ↦ (ReferenceSlot.target, reference)

/-- A Link invocation; a refused one keeps only its comparison. -/
structure PreparedLink where
  key : String
  operation : LinkOperation
  comparison : CapturedComparison
  id : Option String
  link : String
  edits : EditFields
  refusal : Option Problem
  operation_eq : comparison.operation = operation.operation
  slots_eq : ∃ source target, comparison.slots = endpointSlots source target ∧
    (refusal = none → edits.source = source ∧ edits.target = target)
  input_nodup : (comparison.input.map Prod.fst).Nodup
  input_id : refusal = none → comparison.input.lookup "id" = id.map .string
  input_link : refusal = none → operation ≠ .createLink →
    comparison.input.lookup "link" = some (.string link)
  input_endpoints : refusal = none →
    comparison.input.lookup "source" = edits.source.map EndpointReference.semantic ∧
      comparison.input.lookup "target" = edits.target.map EndpointReference.semantic
  id_canonical : ∀ uri, id = some uri → config.navigation.canonical uri = true
  type_reference : ∀ type, edits.type = some type → isTypeReference config.httpUri type = true
  create_complete : refusal = none → operation = .createLink →
    edits.type.isSome ∧ edits.properties.isSome ∧ edits.metadata.isSome ∧
      edits.source.isSome ∧ edits.target.isSome
  unique_names : edits.uniqueNames = true
  edits_fromRevision : edits.fromRevision = none
  delete_slots : operation = .deleteLink → comparison.slots = []
  refused_id : refusal.isSome → id = none
  refusal_validation : IsAdmissionRefusal refusal

inductive AliasOperation where
  | putAlias (target : String)
  | deleteAlias
  deriving DecidableEq, Repr

def AliasOperation.operation : AliasOperation → Operation
  | .putAlias _ => .putAlias
  | .deleteAlias => .deleteAlias

structure PreparedAlias where
  key : String
  operation : AliasOperation
  comparison : CapturedComparison
  /-- The `alias` member of the carrier. -/
  locator : String
  operation_eq : comparison.operation = operation.operation
  slots_eq : comparison.slots = []
  input_nodup : (comparison.input.map Prod.fst).Nodup

end Bdp.Retained
