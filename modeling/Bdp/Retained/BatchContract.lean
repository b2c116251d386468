import Bdp.Retained.Prepared

/-!
# Batch contract

An atomic batch is a list of prepared members with lexical handles: a member may name the resource
that an earlier creating member allocates. A handle keeps a placeholder in the member's own input
and its creator's index in the identity of the batch, so it is never confused with a literal URL.
-/

namespace Bdp.Retained

variable (config : StoreConfiguration)

def BATCH_CAPABILITY : String := "https://github.com/gastownhall/bdp/capabilities/atomic-batch"

structure BatchLimits where
  maximumOperations : ℕ
  maximumResultBytes : ℕ

def BATCH_LIMITS : BatchLimits := { maximumOperations := 32, maximumResultBytes := 262144 }

/-- The members of a carrier that may hold a handle. -/
inductive HandleField where
  | bead
  | link
  | source
  | target
  deriving DecidableEq, Repr

namespace HandleField

def text : HandleField → String
  | .bead => "bead"
  | .link => "link"
  | .source => "source"
  | .target => "target"

/-- The reference slot of a field; a Link subject has none. -/
def slot : HandleField → Option ReferenceSlot
  | .bead => some .bead
  | .link => none
  | .source => some .source
  | .target => some .target

/-- The kind of resource a handle in the field denotes. -/
def kind : HandleField → ResourceKind
  | .link => .link
  | _ => .bead

end HandleField

/-- The URI that stands for a handle in a member's own input. -/
def placeholder (scope : String) (operationIndex : ℕ) : String :=
  scope ++ "batch-binding-" ++ toString operationIndex

inductive BatchInvocation where
  | create (input : PreparedCreate config)
  | update (input : PreparedUpdate config)
  | delete (input : PreparedDelete)
  | link (input : PreparedLink config)

namespace BatchInvocation

variable {config}

def comparison : BatchInvocation config → CapturedComparison
  | .create input => input.comparison
  | .update input => input.comparison
  | .delete input => input.comparison
  | .link input => input.comparison

def operation : BatchInvocation config → Operation
  | .create _ => .createBead
  | .update _ => .updateBead
  | .delete _ => .deleteBead
  | .link input => input.operation.operation

def kind : BatchInvocation config → ResourceKind
  | .link _ => .link
  | _ => .bead

def isCreate : BatchInvocation config → Bool
  | .create _ => true
  | .link input => input.operation == .createLink
  | _ => false

def isDelete : BatchInvocation config → Bool
  | .delete _ => true
  | .link input => input.operation == .deleteLink
  | _ => false

/-- The explicit identity of a creating member. -/
def createdId : BatchInvocation config → Option String
  | .create input => input.id
  | .link input => if input.operation = .createLink then input.id else none
  | _ => none

/-- The fields in which a member of the operation may hold a handle. -/
def handleFields : BatchInvocation config → List HandleField
  | .create _ => []
  | .update _ => [.bead]
  | .delete _ => [.bead]
  | .link input =>
    match input.operation with
    | .createLink => [.source, .target]
    | .updateLink => [.link, .source, .target]
    | .deleteLink => [.link]

/-- The reference a member supplies in a field. -/
def supplied : BatchInvocation config → HandleField → Option EndpointReference
  | .update input, .bead => some (.floating input.bead)
  | .delete input, .bead => some (.floating input.bead)
  | .link input, .link => some (.floating input.link)
  | .link input, .source => input.edits.source
  | .link input, .target => input.edits.target
  | _, _ => none

/-- The edits of an updating member; a creating Link keeps its fields there as well. -/
def edits : BatchInvocation config → EditFields
  | .create input => { EditFields.empty with
      type := some input.type
      properties := some input.properties
      metadata := some input.metadata
      provenance := input.provenance }
  | .update input => input.edits
  | .delete input => { EditFields.empty with expectedRevision := input.expectedRevision }
  | .link input => input.edits

def refusal : BatchInvocation config → Option Problem
  | .create input => input.refusal
  | .update input => input.refusal
  | .delete _ => none
  | .link input => input.refusal

end BatchInvocation

/-- A member with its name and the operation index behind each handle. -/
structure BatchMember where
  name : Option String
  handles : List (HandleField × ℕ)
  invocation : BatchInvocation config

variable {config} in
def BatchMember.fixedSlots (member : BatchMember config) : List ReferenceSlot :=
  member.handles.filterMap fun entry ↦ entry.1.slot

/-- A name is a letter followed by letters, digits, underscores and hyphens. -/
def validName (name : String) : Bool :=
  match name.toList with
  | first :: rest => first.isAlpha &&
      rest.all fun letter ↦ letter.isAlpha || letter.isDigit || letter == '_' || letter == '-'
  | [] => false

structure PreparedBatch where
  key : String
  capabilityVersion : String
  members : List (BatchMember config)
  /-- The whole carrier of a version that is not interpreted. -/
  unknownInput : SemanticValue
  members_nonempty : capabilityVersion = "1" → members ≠ []
  unknown_members : capabilityVersion ≠ "1" → members = []
  names_valid : ∀ member ∈ members, ∀ name ∈ member.name,
    validName name = true ∧ member.invocation.isCreate = true
  names_nodup : (members.filterMap BatchMember.name).Nodup
  /-- Members are prepared by the ordinary carrier, which has no historical source. -/
  members_fromRevision : ∀ member ∈ members, member.invocation.edits.fromRevision = none
  handles_nodup : ∀ member ∈ members, (member.handles.map Prod.fst).Nodup
  handles_admitted : ∀ (index : ℕ) (member : BatchMember config), members[index]? = some member →
    ∀ entry ∈ member.handles, entry.1 ∈ member.invocation.handleFields ∧ entry.2 < index ∧
      (∃ creator : BatchMember config, members[entry.2]? = some creator ∧
        creator.invocation.isCreate = true ∧ creator.invocation.kind = entry.1.kind) ∧
      (member.invocation.refusal = none →
        ∃ reference, member.invocation.supplied entry.1 = some reference ∧
          referenceUri reference = placeholder config.navigation.scope entry.2)

def batchCapabilityProblem (version : String) : Problem :=
  { code := "capability-not-supported", status := 422, retry := "after-state-change"
    details := [("capability", .string BATCH_CAPABILITY), ("capabilityVersion", .string version),
      ("pointer", .string "/capabilityVersion")] }

section Identity

variable {config}

/-- The identity of a member: its own comparison text and the tagged map of its handles. -/
def memberIdentity (member : BatchMember config) (identity : String) : SemanticValue :=
  .object [("operation", .string member.invocation.operation.text),
    ("identity", .string identity),
    ("handles", .object (member.handles.map fun entry ↦
      (entry.1.text, .string (toString entry.2))))]

def batchSemantic (scope : String) (members : List (BatchMember config))
    (identities : List String) : SemanticValue :=
  .object [("format", .string "retained-v01-batch-1"), ("specification", .string RETAINED_SPEC),
    ("media", .string RETAINED_MEDIA),
    ("capabilities", .object [(BATCH_CAPABILITY, .string "1")]), ("scope", .string scope),
    ("operation", .string Operation.batch.text),
    ("input", .array (List.zipWith memberIdentity members identities))]

def unknownBatchSemantic (scope : String) (input : SemanticValue) : SemanticValue :=
  .object [("format", .string "retained-v01-batch-unknown-1"),
    ("specification", .string RETAINED_SPEC), ("media", .string RETAINED_MEDIA),
    ("scope", .string scope), ("operation", .string Operation.batch.text), ("input", input)]

structure BatchComparison where
  identity : String
  members : List ReferenceComparison
  originalWitnesses : List AliasWitness

/-- Compare the members in order; an identity created by an earlier member is direct. -/
def compareMembers (codec : JsonCodec ℚ) (lookup : AliasLookup)
    (prior : Option (List AliasWitness)) :
    List String → List (BatchMember config) → List ReferenceComparison
  | _, [] => []
  | priorCreated, member :: members =>
    compareCapturedReferences codec member.invocation.comparison
        (fun locator ↦ if priorCreated.contains locator then none else lookup locator)
        (prior.map fun witnesses ↦ witnesses.filter fun witness ↦
          !priorCreated.contains witness.locator)
        member.fixedSlots ::
      compareMembers codec lookup prior
        (member.invocation.createdId.toList ++ priorCreated) members

/-- The witnesses of all members, one for each locator. -/
def memberTargets (comparisons : List ReferenceComparison) : Table (Option String) :=
  (comparisons.flatMap ReferenceComparison.originalWitnesses).foldl
    (fun targets witness ↦ targets.insert witness.locator witness.target) ∅

def compareBatch (input : PreparedBatch config) (lookup : AliasLookup)
    (prior : Option (List AliasWitness)) : BatchComparison :=
  let comparisons := compareMembers config.codec lookup prior [] input.members
  { identity :=
      if input.capabilityVersion = "1" then
        encodeSemanticValue config.codec (batchSemantic config.navigation.scope input.members
          (comparisons.map ReferenceComparison.identity))
      else encodeSemanticValue config.codec
        (unknownBatchSemantic config.navigation.scope input.unknownInput)
    members := comparisons
    originalWitnesses := prior.getD (witnessList (memberTargets comparisons)) }

end Identity

end Bdp.Retained
