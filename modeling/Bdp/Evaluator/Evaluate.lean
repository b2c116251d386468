import Bdp.Library.Grouping
import Bdp.Evaluator.PropertyChange
import Bdp.Evaluator.Records

/-!
# The Resource evaluator

One synchronous member: creation, update or deletion of a Bead or a Link. Everything is read and
checked before anything is written, so a mutation is a function of what it reads to an outcome with
its writes, a refusal, or an internal error. The stages are the ones of the source in their order:
subject, endpoints, Types, documents, versions, final checks.
-/

namespace Bdp.Evaluator

open Recovery (ResourceKind ResourceShape)
open Retained (Json JsonObject RevisionProvenanceInput ObjectChange ObjectEdit EditRefusal Stored
  Memory addresses contents place)
open Transaction (Reference)

variable (options : ResourceEvaluationOptions) (tx : ResourceTransaction)

section Diagnostics

def exceeds (limit : Option ℕ) (value : ℕ) : Bool := limit.any fun limit ↦ decide (limit < value)

/-- Retain diagnostics until one does not fit; the first one has to fit. -/
def collectDiagnostics (retained : List ValidationDiagnostic) (bytes : ℕ) :
    List ValidationDiagnostic → Except Stop (List ValidationDiagnostic × Bool)
  | [] => .ok (retained, false)
  | diagnostic :: diagnostics =>
    let next := bytes + (if retained = [] then 0 else 1) + options.sizes.diagnostic diagnostic
    if exceeds options.limits.diagnosticCount (retained.length + 1) ||
        exceeds options.limits.diagnosticBytes next then
      if retained = [] then
        .error (.fault "diagnostic configuration cannot retain one complete diagnostic")
      else .ok (retained, true)
    else collectDiagnostics (retained ++ [diagnostic]) next diagnostics

def diagnosticFailure {α : Type} (diagnostics : List ValidationDiagnostic) : Except Stop α := do
  let (retained, truncated) ← collectDiagnostics options [] 2 diagnostics
  if retained = [] then .error (.fault "validation failure requires a diagnostic")
  else .error (.failure
    { family := "validation", code := "validation-failed", status := 422, retry := "never"
      diagnostics := retained, diagnosticsTruncated := truncated })

def plainDiagnostic (message : String) : ValidationDiagnostic :=
  { message, type := none, schemaLocation := none, instanceLocation := none, document := none }

def bad {α : Type} (message : String) : Except Stop α :=
  diagnosticFailure options [plainDiagnostic message]

/-- What the effective contracts say about properties, in their order. -/
def propertyDiagnostics (effective : List InstalledResourceContract) (properties : JsonObject) :
    List ValidationDiagnostic :=
  effective.flatMap fun entry ↦
    match entry.validateProperties with
    | none => []
    | some validate => (validate properties).map fun diagnostic ↦
        { message := diagnostic.message
          type := some entry.descriptor.id
          schemaLocation := some diagnostic.schemaLocation
          instanceLocation := some diagnostic.instanceLocation
          document := none }

def validatePropertyContracts (effective : List InstalledResourceContract)
    (properties : JsonObject) : Except Stop Unit :=
  if propertyDiagnostics effective properties = [] then .ok ()
  else diagnosticFailure options (propertyDiagnostics effective properties)

end Diagnostics

section Reading

/-- The absolute spelling of an admitted reference. -/
def canonical (spelling : String) : Except Stop String := do
  check (¬ spelling.toList.head? = some '@')
    (.fault "S5 must resolve bindings before Resource evaluation")
  if UrlPath.hasScheme spelling then pure spelling
  else
    check (UrlPath.canonicalPath spelling = true) (.fault "admitted local reference")
    require (options.scope.resolve spelling) (.fault "Invalid URL")

/-- Read a row as the record of its own key. -/
def storedRecord (stored : StoredResource) : Except Stop ResourceRecord := do
  check (stored.body.kind = stored.kind ∧ options.readable stored.body = true)
    (.fault "invalid stored Resource")
  check (options.scope.resourcePath stored.body.id = some stored.id)
    (.fault "stored Resource identity differs from its index")
  pure stored.body

/-- The path below the alias root that a local path names. -/
def aliasPath (path : String) : Option String :=
  (path.toList.dropPrefix? "alias/".toList).map String.ofList

/-- A Bead reference below the alias root is read through the alias table. -/
def resolve (spelling : String) (expected : ResourceKind) : Except Stop String := do
  let uri ← canonical options spelling
  match expected, (options.scope.localPath uri).bind aliasPath with
  | .bead, some path => do
    let target ← require ((tx.alias path).filter fun target ↦ target != "")
      (refusal .resourceNotFound)
    require (options.scope.resolve target) (.fault "Invalid URL")
  | _, _ => pure uri

/-- The Bead that an in-Scope endpoint names, or nothing for an external one; none is no Bead. -/
def endpointBead (reference : Reference) : Except Stop (Option (List ResourceRecord)) :=
  match options.scope.localPath reference.uri with
  | none => .ok (some [])
  | some id =>
    match (tx.resource id).filter fun found ↦ found.kind == .bead with
    | none => .ok none
    | some found => (storedRecord options found).map fun record ↦ some [record]

/-- The Beads that readable Links lead to; none as soon as one is hidden or leads nowhere. -/
def linkedBeads : List LinkRecord → Except Stop (Option (List ResourceRecord))
  | [] => .ok (some [])
  | link :: links =>
    if options.policy.canRead (.link link) = false then .ok none
    else do
      let source ← endpointBead options tx link.source
      match source with
      | none => pure none
      | some source => do
        let target ← endpointBead options tx link.target
        match target with
        | none => pure none
        | some target => do
          let more ← linkedBeads links
          pure (more.map fun more ↦ source ++ target ++ more)

/-- Visit the closure of pending records, the last found first. -/
def visitPending : ℕ → List String → List ResourceRecord → Except Stop Bool
  | 0, _, _ => .error (.fault "unbounded closure")
  | _ + 1, _, [] => .ok true
  | fuel + 1, seen, current :: pending =>
    if seen.contains current.id then visitPending fuel seen pending
    else if options.policy.canRead current = false then .ok false
    else do
      match ← linkedBeads options tx current.links with
      | none => pure false
      | some found => visitPending fuel (current.id :: seen) (found.reverse ++ pending)

/-- Every record is visited once, and leads to two Beads for each of its Links. -/
def closureBound (record : ResourceRecord) : ℕ :=
  2 + 2 * record.links.length + (tx.rows.map fun row ↦ 2 * row.body.links.length).sum

def isResourceVisible (record : ResourceRecord) : Except Stop Bool :=
  visitPending options tx (closureBound tx record) [] [record]

def loadVisible (uri : String) (expected : ResourceKind) : Except Stop ResourceRecord := do
  let stored ← require ((options.scope.resourcePath uri).bind tx.resource)
    (refusal .resourceNotFound)
  check (stored.kind = expected) (refusal .resourceNotFound)
  let record ← storedRecord options stored
  let visible ← isResourceVisible options tx record
  check (visible = true) (refusal .resourceNotFound)
  pure record

end Reading

section Subjects

structure Subject where
  id : String
  uri : String
  before : Option ResourceRecord
  resolutions : List ResourceReferenceResolution

def plainReference (uri : String) : Reference := { uri, revision := none }

/-- The spelling of a new identity: the supplied one, or a nonempty allocated one. -/
def creationSpelling (kind : ResourceKind) : Option String → Except Stop String
  | some spelling => .ok spelling
  | none => do
    let allocated ← (tx.allocateResourceId kind).mapError Stop.fault
    check (allocated ≠ "") (.fault "allocator must return a nonempty identity string")
    pure allocated

/-- The identity of a creation: its local path is checked against the ledger and the aliases, and
the record is given the URL that this path resolves to. -/
def creationSubject (kind : ResourceKind) (supplied : Option String) : Except Stop Subject := do
  let spelling ← creationSpelling tx kind supplied
  let suppliedUri ← canonical options spelling
  let id ← require (options.scope.resourcePath suppliedUri)
    (.fault "creation ID must already have canonical Resource grammar and kind")
  check (supplied.isSome ∨ '/' ∉ id.toList)
    (.fault "allocator must return one opaque Resource identity segment")
  let uri ← require (options.scope.resolve id) (.fault "Invalid URL")
  check (tx.identityWasCommitted id = false)
    (if supplied.isSome then refusal .identityTaken
      else .fault "allocator returned a committed Resource identity")
  check ((aliasPath id).bind tx.alias = none)
    (if supplied.isSome then refusal .aliasPathTaken
      else .fault "allocator returned a live Resource alias path")
  pure { id, uri, before := none
         resolutions := supplied.toList.map fun original ↦
           { inputPointer := .id, original := plainReference original
             resolved := plainReference uri } }

def existingSubject (kind : ResourceKind) (subject : String) : Except Stop Subject := do
  let resolved ← resolve options tx subject kind
  let before ← loadVisible options tx resolved kind
  let id ← require (options.scope.localPath before.id) (.fault "Resource outside its Scope")
  let uri ← require (options.scope.resolve id) (.fault "Invalid URL")
  pure { id, uri, before := some before
         resolutions := [{ inputPointer := if kind = .bead then .bead else .link
                           original := plainReference subject
                           resolved := plainReference resolved }] }

def mutationSubject : ResourceMutation → Except Stop Subject
  | .createBead input => creationSubject options tx .bead input.id
  | .createLink input _ _ => creationSubject options tx .link input.id
  | .update kind input => existingSubject options tx kind input.subject
  | .delete kind subject _ => existingSubject options tx kind subject

end Subjects

section Endpoints

/-- An endpoint is external, or it names a visible Bead of the Scope. -/
def checkEndpoint (absolute : String) : Except Stop Unit :=
  match options.scope.localPath absolute with
  | none => .ok ()
  | some path =>
    if (options.scope.resourcePath absolute).isNone ||
        (tx.resource path).any (fun found ↦ found.kind == .link) then
      bad options "Link endpoint is not a Bead reference"
    else do
      let _ ← loadVisible options tx absolute .bead
      pure ()

def endpoint (reference : Reference) : Except Stop Reference := do
  let absolute ← resolve options tx reference.uri .bead
  checkEndpoint options tx absolute
  pure { reference with uri := absolute }

abbrev Endpoints := Reference × Reference

def endpointsOf (source target : Reference) : Except Stop Endpoints := do
  let source ← endpoint options tx source
  let target ← endpoint options tx target
  pure (source, target)

/-- The references of a Link mutation: supplied ones, or those of the record before. -/
def linkReferences (mutation : ResourceMutation) (before : Option ResourceRecord) :
    Option (Reference × Reference) :=
  match mutation, before with
  | .createLink _ source target, _ => some (source, target)
  | .update _ _, some (.link before) => some (before.source, before.target)
  | .delete _ _ _, some (.link before) => some (before.source, before.target)
  | _, _ => none

/-- The endpoints of a Link mutation; a Link that stays has one in the Scope. -/
def mutationEndpoints (mutation : ResourceMutation) (before : Option ResourceRecord) :
    Except Stop (Option Endpoints) :=
  match mutation.resourceKind with
  | .bead => .ok none
  | .link => do
    let references ← require (linkReferences mutation before) (.fault "Link endpoints required")
    let endpoints ← endpointsOf options tx references.1 references.2
    if mutation.deleting = false ∧ options.scope.localPath endpoints.1.uri = none ∧
        options.scope.localPath endpoints.2.uri = none then
      bad options "a Link must have at least one in-Scope endpoint"
    else pure (some endpoints)

def endpointResolutions (mutation : ResourceMutation) (endpoints : Option Endpoints) :
    List ResourceReferenceResolution :=
  match mutation, endpoints with
  | .createLink _ source target, some endpoints =>
    [{ inputPointer := .source, original := source, resolved := endpoints.1 },
      { inputPointer := .target, original := target, resolved := endpoints.2 }]
  | _, _ => []

end Endpoints

section Types

/-- Descriptors whose parents are all settled before them. -/
def settledTypes (descriptors : List TypeDescriptor) : ℕ → List String
  | 0 => []
  | rounds + 1 => (descriptors.filter fun descriptor ↦ descriptor.conformsTo.all fun parent ↦
      (settledTypes descriptors rounds).contains parent).map TypeDescriptor.id

/-- The conformance index accepts descriptors that conform within their category, in no cycle. -/
def conformanceHolds (descriptors : List TypeDescriptor) : Bool :=
  (descriptors.all fun descriptor ↦ descriptor.conformsTo.all fun parent ↦
    descriptors.any fun other ↦
      other.id == parent && other.describes.kind == descriptor.describes.kind) &&
    descriptors.all fun descriptor ↦
      (settledTypes descriptors descriptors.length).contains descriptor.id

/-- Gather the Types that pending names reach, the last named first. -/
def gatherContracts : ℕ → List InstalledResourceContract → List String →
    Except Stop (List InstalledResourceContract)
  | 0, _, _ => .error (.fault "unbounded Type closure")
  | _ + 1, gathered, [] => .ok gathered
  | fuel + 1, gathered, name :: pending =>
    if name = "" ∨ gathered.any (fun entry ↦ entry.descriptor.id == name) = true then
      gatherContracts fuel gathered pending
    else do
      let entry ← require (tx.installedTypes[name]?.bind (options.contracts name))
        (refusal .typeNotInstalled)
      check (entry.descriptor.id = name ∧
          (entry.descriptor.propertiesSchema = true → entry.validateProperties.isSome = true))
        (refusal .typeNotInstalled)
      gatherContracts fuel (gathered ++ [entry])
        (entry.descriptor.conformsTo.reverse ++ pending)

/-- Every name is gathered once, and names its parents. -/
def typeBound : ℕ :=
  2 + (tx.installedTypes.toList.map fun entry ↦
    ((options.contracts entry.1 entry.2).map fun contract ↦
      contract.descriptor.conformsTo.length).getD 0).sum

def contracts (type : String) : Except Stop (List InstalledResourceContract) := do
  let gathered ← gatherContracts options tx (typeBound options tx) [] [type]
  check (conformanceHolds (gathered.map InstalledResourceContract.descriptor) = true)
    (refusal .typeNotInstalled)
  pure gathered

def declaredType (type : String) (effective : List InstalledResourceContract) :
    Option TypeDescriptor :=
  (effective.map InstalledResourceContract.descriptor).find? fun descriptor ↦
    descriptor.id == type

structure EndpointCheck where
  type : String
  side : EndpointSide
  constraint : EndpointConstraint
  address : String
  /-- The effective Types of an in-Scope endpoint. -/
  actual : Option (List InstalledResourceContract)

/-- The constraint that one effective Type puts on one endpoint. -/
def endpointCheck (endpoints : Endpoints) (entry : InstalledResourceContract)
    (side : EndpointSide) : Except Stop EndpointCheck := do
  let constraint ← match entry.descriptor.describes, side with
    | .link source _, .source => pure source
    | .link _ target, .target => pure target
    | .bead _, _ => .error (refusal .typeNotInstalled)
  let address := match side with
    | .source => endpoints.1.uri
    | .target => endpoints.2.uri
  let required ← constraint.conformsTo.mapM (contracts options tx)
  check (required.flatten.all (fun contract ↦ contract.descriptor.describes.kind == .bead) = true)
    (refusal .typeNotInstalled)
  if (options.scope.localPath address).isNone then
    pure { type := entry.descriptor.id, side, constraint, address, actual := none }
  else
    let bead ← loadVisible options tx address .bead
    let actual ← contracts options tx bead.fields.type
    pure { type := entry.descriptor.id, side, constraint, address, actual := some actual }

def endpointChecks (effective : List InstalledResourceContract) :
    Option Endpoints → Except Stop (List EndpointCheck)
  | none => .ok []
  | some endpoints =>
    (effective.flatMap fun entry ↦
      [(entry, EndpointSide.source), (entry, EndpointSide.target)]).mapM
      fun entry ↦ endpointCheck options tx endpoints entry.1 entry.2

def constraintDiagnostic (entry : EndpointCheck) (member message : String) :
    ValidationDiagnostic :=
  { message, type := some entry.type
    schemaLocation := some (entry.type ++ "#/" ++ entry.side.text ++ "/" ++ member)
    instanceLocation := none, document := none }

def checkConstraint (entry : EndpointCheck) : Except Stop Unit :=
  match entry.actual with
  | some actual =>
    if entry.constraint.conformsTo.all fun required ↦
        actual.any fun contract ↦ contract.descriptor.id == required then .ok ()
    else diagnosticFailure options [constraintDiagnostic entry "conformsTo"
      "in-Scope endpoint fails an effective Type constraint"]
  | none =>
    match entry.constraint.external with
    | .none => diagnosticFailure options [constraintDiagnostic entry "external"
        "external endpoint is forbidden by Type contract"]
    | .bead =>
      if options.isExternalBead entry.address then .ok ()
      else diagnosticFailure options [constraintDiagnostic entry "external"
        "external endpoint is not bead-shaped"]
    | .any => .ok ()

def ResourceRecord.bead? : ResourceRecord → Option BeadRecord
  | .bead record => some record
  | .link _ => none

/-- The source Bead of a Link with a source in the Scope. -/
def sourceBead : Option Endpoints → Except Stop (Option BeadRecord)
  | none => .ok none
  | some endpoints =>
    match options.scope.localPath endpoints.1.uri with
    | none => .ok none
    | some id => do
      let uri ← require (options.scope.resolve id) (.fault "Invalid URL")
      let record ← loadVisible options tx uri .bead
      let record ← require record.bead? (.fault "source is not a Bead")
      pure (some record)

def sourceType : Option BeadRecord → Except Stop (Option TypeDescriptor)
  | none => .ok none
  | some source => (contracts options tx source.type).map (declaredType source.type)

end Types

section Documents

inductive Document where
  | properties
  | metadata
  deriving DecidableEq, Repr

/-- The document that a diagnostic of `patch` names. -/
def Document.named : Document → Option String
  | .properties => none
  | .metadata => some "metadata"

def Document.text : Document → String
  | .properties => "properties"
  | .metadata => "metadata"

def propertyText : EditRefusal → String
  | .parent => "Property Change parent does not exist"
  | .target => "Property Change target does not exist"
  | .index => "Property Change array index does not exist"

/-- The diagnostic of `invalid`. -/
def invalidDiagnostic (document : Document) (message pointer : String) : ValidationDiagnostic :=
  { message := if document = .metadata then "metadata: " ++ message else message
    type := none, schemaLocation := none, instanceLocation := some pointer
    document := document.named }

/-- `freeze` writes the attributes of every container. -/
def freeze (value : Stored) (memory : Memory) : Memory :=
  { memory with written := memory.written ++ addresses value }

def changeOrInvalid (document : Document) (state : Option Stored × Memory) (change : ObjectEdit) :
    Except Stop (Option Stored × Memory) :=
  match changeIn state change with
  | .ok next => .ok next
  | .error refusal =>
    diagnosticFailure options [invalidDiagnostic document (propertyText refusal) change.path]

/-- `patch` in memory: the changes are made on a copy, and the object that they leave is frozen. -/
def patchIn (document : Document) (properties : Stored) (changes : ObjectChange) (memory : Memory) :
    Except Stop (Stored × Memory) := do
  let (copied, memory) := copy (contents properties) memory
  let (result, memory) ← changes.foldlM (changeOrInvalid options document) (some copied, memory)
  match result with
  | some (.object address members) =>
    .ok (.object address members, freeze (.object address members) memory)
  | _ =>
    diagnosticFailure options
      [{ message := "resulting " ++ document.text ++ " must be an object", type := none
         schemaLocation := none, instanceLocation := some "", document := document.named }]

/-- The members of the object that `patch` makes of a document read from its row. -/
def patch (document : Document) (before : JsonObject) (changes : ObjectChange) :
    Except Stop JsonObject :=
  let (properties, next) := place (.object before) 0
  (patchIn options document properties changes { next, written := [] }).map fun patched ↦
    (match contents patched.1 with
    | .object members => members
    | _ => [])

/-- A document of the new version: supplied, edited, or kept. -/
def stagedDocument (document : Document) (mutation : ResourceMutation)
    (before : Option ResourceRecord) : Except Stop JsonObject :=
  let kept := match document, before with
    | .properties, some record => record.fields.properties
    | .metadata, some record => record.fields.metadata
    | _, none => []
  let supplied (input : CreateInput) := (match document with
    | .properties => input.properties
    | .metadata => input.metadata).getD []
  match mutation with
  | .createBead input => .ok (supplied input)
  | .createLink input _ _ => .ok (supplied input)
  | .update _ input =>
    match (match document with
      | .properties => input.propertiesChange
      | .metadata => input.metadataChange) with
    | some changes => patch options document kept changes
    | none => .ok kept
  | .delete _ _ _ => .ok kept

end Documents

/-- What a mutation has read and checked before it prepares new versions. -/
structure Prepared where
  subject : Subject
  type : String
  endpoints : Option Endpoints
  effective : List InstalledResourceContract
  declared : TypeDescriptor
  source : Option BeadRecord
  /-- The declared Type of the source Bead. -/
  sourceDescriptor : Option TypeDescriptor
  properties : JsonObject
  metadata : JsonObject

def mutationType (mutation : ResourceMutation) (before : Option ResourceRecord) :
    Option String :=
  match mutation with
  | .createBead input => some input.type
  | .createLink input _ _ => some input.type
  | _ => before.map fun record ↦ record.fields.type

def prepare (mutation : ResourceMutation) : Except Stop Prepared := do
  let subject ← mutationSubject options tx mutation
  let type ← require (mutationType mutation subject.before) (.fault "Resource Type required")
  let endpoints ← mutationEndpoints options tx mutation subject.before
  let effective ← contracts options tx type
  let declared ← require (declaredType type effective) (refusal .typeNotInstalled)
  if declared.describes.kind ≠ mutation.resourceKind then
    bad options "declared Type describes another Resource category"
  else do
    let checks ← endpointChecks options tx effective endpoints
    let source ← sourceBead options tx endpoints
    let properties ← stagedDocument options .properties mutation subject.before
    let metadata ← stagedDocument options .metadata mutation subject.before
    let _ ← (if mutation.deleting then .ok ()
      else validatePropertyContracts options effective properties)
    checks.forM (checkConstraint options)
    let sourceDescriptor ← sourceType options tx source
    pure { subject, type, endpoints, effective, declared, source, sourceDescriptor, properties
           metadata }

section Versions

inductive ContextRecipe where
  | native
  | preserved (value : Option JsonObject)

/-- A version before its commit instant is observed. -/
structure VersionRecipe where
  id : String
  type : String
  revision : String
  properties : JsonObject
  metadata : JsonObject
  actor : Option JsonObject
  context : ContextRecipe

structure LinkRecipe extends VersionRecipe where
  source : Reference
  target : Reference

inductive PreparedLink where
  | existing (value : LinkRecord)
  | replacement (value : LinkRecipe)

namespace PreparedLink

def id : PreparedLink → String
  | .existing value => value.id
  | .replacement value => value.id

def type : PreparedLink → String
  | .existing value => value.type
  | .replacement value => value.type

end PreparedLink

structure BeadRecipe extends VersionRecipe where
  ownedLinks : Option (List (String × List PreparedLink))

inductive SubjectRecipe where
  | bead (recipe : BeadRecipe)
  | link (recipe : LinkRecipe)

/-- Put a Link into the entry of its Type; a Type that is not listed yet is listed last. -/
def bucketLink (entries : List (String × List PreparedLink)) (link : PreparedLink) :
    List (String × List PreparedLink) := Grouping.put PreparedLink.type entries link

/-- Whether declarations own Links of a Type. -/
def declaresOwned (declarations : OwnedOutgoingDeclarations) (type : String) : Bool :=
  (declarations.max type).isSome || (declarations.max "*").isSome

def sortLinks (links : List PreparedLink) : List PreparedLink :=
  Grouping.sortBy PreparedLink.id links

/-- The live outgoing Links of an owner, with one replaced or left out. -/
def liveLinks (owner : String) (replacement : Option LinkRecipe) (removed : Option String) :
    Except Stop (List PreparedLink) := do
  let id ← require (options.scope.localPath owner) (.fault "owner outside its Scope")
  let kept := (tx.outgoingLinks id).filter fun link ↦
    some link.id != removed && options.scope.resolve link.id != replacement.map (·.id)
  let existing ← kept.mapM fun stored ↦ do
    match ← storedRecord options stored with
    | .link record => pure (PreparedLink.existing record)
    | .bead _ => .error (.fault "invalid stored Resource")
  pure (existing ++ replacement.toList.map PreparedLink.replacement)

def maximumDiagnostic (descriptor : TypeDescriptor) (name message : String) :
    ValidationDiagnostic :=
  { message, type := some descriptor.id
    schemaLocation := some (descriptor.id ++ "#/ownsOutgoing/" ++
      (name.replace "~" "~0").replace "/" "~1")
    instanceLocation := none, document := none }

/-- The owned Links of a Bead, grouped, ordered and within their maxima. -/
def ownedLinks (owner : String) (descriptor : TypeDescriptor)
    (declarations : OwnedOutgoingDeclarations) (replacement : Option LinkRecipe)
    (removed : Option String) : Except Stop (List (String × List PreparedLink)) := do
  let live ← liveLinks options tx owner replacement removed
  let named := declarations.names.map fun name ↦ (name, ([] : List PreparedLink))
  let entries := ((live.filter fun link ↦ declaresOwned declarations link.type).foldl bucketLink
    named).map fun entry ↦ (entry.1, sortLinks entry.2)
  entries.forM fun entry ↦
    if exceeds (declarations.max entry.1) entry.2.length then
      diagnosticFailure options [maximumDiagnostic descriptor entry.1
        "owned Link set exceeds declared maximum"]
    else pure ()
  if exceeds (declarations.max "*") (entries.map fun entry ↦ entry.2.length).sum then
    diagnosticFailure options [maximumDiagnostic descriptor "*"
      "whole owned Link set exceeds wildcard maximum"]
  else pure entries

/-- The owned Links of a Bead whose Type declares some. -/
def ownedLinksOf (owner : String) (descriptor : TypeDescriptor)
    (replacement : Option LinkRecipe) (removed : Option String) :
    Except Stop (Option (List (String × List PreparedLink))) :=
  match descriptor.ownsOutgoing with
  | none => .ok none
  | some declarations =>
    (ownedLinks options tx owner descriptor declarations replacement removed).map some

def allocateRevision (draw : ℕ) : Except Stop String :=
  match tx.allocateRevision draw with
  | .unsafeAllocation => .error (refusal .revisionAllocationUnsafe)
  | .text revision => do
    check (revision ≠ "") (.fault "allocator must return a nonempty revision string")
    pure revision

/-- Whether an update leaves both documents as they were. -/
def isNoOp (mutation : ResourceMutation) (prepared : Prepared) : Bool :=
  match mutation, prepared.subject.before with
  | .update _ _, some before =>
    Retained.jsonValueEqual (JsonValue.object prepared.properties)
        (.object before.fields.properties) &&
      Retained.jsonValueEqual (JsonValue.object prepared.metadata)
        (.object before.fields.metadata)
  | _, _ => false

def needsContext (mutation : ResourceMutation) (noOp : Bool) : Bool :=
  !noOp && (options.recordChangeContext ||
    mutation.revisionProvenance.any fun input ↦ input.agent.isSome || input.message.isSome)

/-- The provenance of a new version: that of the prior one for a no-op. -/
def versionMetadata (mutation : ResourceMutation) (noOp : Bool)
    (prior : Option ResourceRecord) : Option JsonObject × ContextRecipe :=
  match noOp, prior with
  | true, some prior => (none, .preserved prior.fields.revisionProvenance)
  | _, _ => (mutation.revisionProvenance.bind RevisionProvenanceInput.actor,
      if needsContext options mutation noOp then .native else .preserved none)

def subjectVersion (mutation : ResourceMutation) (prepared : Prepared) (noOp : Bool)
    (revision : String) : VersionRecipe :=
  let metadata := versionMetadata options mutation noOp prepared.subject.before
  { id := prepared.subject.uri, type := prepared.type, revision
    properties := prepared.properties, metadata := prepared.metadata
    actor := metadata.1, context := metadata.2 }

/-- A no-op keeps the revision, and everything else draws a new one. -/
def subjectRevision (noOp : Bool) (before : Option ResourceRecord) : Except Stop String :=
  match noOp, before with
  | true, some before => .ok before.fields.revision
  | _, _ => allocateRevision tx 0

/-- The new version of the subject; a deletion has none. -/
def subjectRecipe (mutation : ResourceMutation) (prepared : Prepared) (noOp : Bool) :
    Except Stop (Option SubjectRecipe) :=
  if mutation.deleting then .ok none
  else do
    let revision ← subjectRevision tx noOp prepared.subject.before
    let version := subjectVersion options mutation prepared noOp revision
    match prepared.endpoints with
    | some endpoints => pure (some (.link
        { version with source := endpoints.1, target := endpoints.2 }))
    | none => do
      let owned ← ownedLinksOf options tx version.id prepared.declared none none
      pure (some (.bead { version with ownedLinks := owned }))

/-- The source Bead whose Type owns Links of the subject's Type. -/
def owningSource (prepared : Prepared) : Option (BeadRecord × TypeDescriptor) :=
  match prepared.source, prepared.sourceDescriptor with
  | some source, some descriptor =>
    if descriptor.ownsOutgoing.any fun declarations ↦ declaresOwned declarations prepared.type then
      some (source, descriptor)
    else none
  | _, _ => none

/-- A no-op keeps the revision of the source, and everything else draws the next one. -/
def sourceRevision (mutation : ResourceMutation) (noOp : Bool) (source : BeadRecord) :
    Except Stop String :=
  if noOp then .ok source.revision else allocateRevision tx (if mutation.deleting then 0 else 1)

/-- The new version of the owning source: its owned Links with the subject replaced or removed. -/
def sourceRecipe (mutation : ResourceMutation) (prepared : Prepared) (noOp : Bool)
    (subject : Option SubjectRecipe) : Except Stop (Option BeadRecipe) :=
  match owningSource prepared with
  | none => .ok none
  | some (source, descriptor) => do
    let revision ← sourceRevision tx mutation noOp source
    let metadata := versionMetadata options mutation noOp (some (.bead source))
    let owned ← ownedLinksOf options tx source.id descriptor
      (match subject with
        | some (.link recipe) => some recipe
        | _ => none)
      (if mutation.deleting then some prepared.subject.id else none)
    pure (some
      { id := source.id, type := source.type, revision, properties := source.properties
        metadata := source.metadata, actor := metadata.1, context := metadata.2
        ownedLinks := owned })

/-- One policy on how many Links may share an endpoint. -/
def checkMultiplicity (prepared : Prepared) (endpoints : Endpoints)
    (policy : MaximumEndpointMultiplicityPolicy) : Except Stop Unit := do
  if (prepared.effective.any fun entry ↦ entry.descriptor.id == policy.linkConformsTo) = false then
    pure ()
  else
    let address := match policy.endpoint with
      | .source => endpoints.1.uri
      | .target => endpoints.2.uri
    match options.scope.localPath address with
    | none => pure ()
    | some endpointId => do
      let others := (tx.incidentLinks endpointId).filter fun link ↦
        link.id != prepared.subject.id && (match policy.endpoint with
          | .source => link.shape.source
          | .target => link.shape.target) == some endpointId
      let counted ← others.filterM fun link ↦ do
        let record ← storedRecord options link
        let effective ← contracts options tx record.fields.type
        pure (effective.any fun entry ↦ entry.descriptor.id == policy.linkConformsTo)
      check (counted.length + 1 ≤ policy.max) (refusal .aggregateConstraintViolation)

/-- The change context of the commit instant. -/
def makeContext (input : Option RevisionProvenanceInput) (committedAt : String) : JsonObject :=
  [("committedAt", .object [("state", .string "present"), ("value", .string committedAt)]),
    ("agent", RevisionProvenanceInput.context (input.bind RevisionProvenanceInput.agent)),
    ("message", RevisionProvenanceInput.context (input.bind RevisionProvenanceInput.message))]

def VersionRecipe.isNative (recipe : VersionRecipe) : Bool :=
  match recipe.context with
  | .native => true
  | .preserved _ => false

/-- The fields of a version; a native one takes the observed context. -/
def materializeFields (native : JsonObject) (recipe : VersionRecipe) : VersionFields :=
  let context := match recipe.context with
    | .native => some native
    | .preserved value => value
  { id := recipe.id, type := recipe.type, revision := recipe.revision
    properties := recipe.properties, metadata := recipe.metadata
    revisionProvenance :=
      match context, recipe.actor with
      | none, none => none
      | some context, none => some context
      | context, some actor => some (Retained.defineMember (context.getD []) "actor"
          (.object actor)) }

def materializeLink (native : JsonObject) (recipe : LinkRecipe) : LinkRecord :=
  { materializeFields native recipe.toVersionRecipe with
    source := recipe.source, target := recipe.target }

def materializePrepared (native : JsonObject) : PreparedLink → LinkRecord
  | .existing value => value
  | .replacement value => materializeLink native value

def materializeBead (native : JsonObject) (recipe : BeadRecipe) : BeadRecord :=
  { materializeFields native recipe.toVersionRecipe with
    ownedLinks := recipe.ownedLinks.map fun entries ↦
      entries.map fun entry ↦ (entry.1, entry.2.map (materializePrepared native)) }

def SubjectRecipe.version : SubjectRecipe → VersionRecipe
  | .bead recipe => recipe.toVersionRecipe
  | .link recipe => recipe.toVersionRecipe

def materializeSubject (native : JsonObject) : SubjectRecipe → ResourceRecord
  | .bead recipe => .bead (materializeBead native recipe)
  | .link recipe => .link (materializeLink native recipe)

end Versions

section Final

/-- The new records of a mutation. -/
structure Versions where
  after : Option ResourceRecord
  sourceAfter : Option BeadRecord

def checkMultiplicities (mutation : ResourceMutation) (prepared : Prepared) :
    Except Stop Unit :=
  match mutation.deleting, prepared.endpoints with
  | false, some endpoints =>
    options.maximumEndpointMultiplicity.forM (checkMultiplicity options tx prepared endpoints)
  | _, _ => .ok ()

/-- The context of the commit instant, observed when a new version records it. -/
def nativeContext (mutation : ResourceMutation) (subject : Option SubjectRecipe)
    (source : Option BeadRecipe) : Except Stop JsonObject :=
  if subject.any (fun recipe ↦ recipe.version.isNative) ||
      source.any (fun recipe ↦ recipe.toVersionRecipe.isNative) then
    (require options.observeCommitTime
      (.fault "authority commit clock must return safe epoch milliseconds within Date range")).map
      (makeContext mutation.revisionProvenance)
  else .ok []

/-- Prepare the new versions, observe the commit instant if one of them records it, and
materialize them. -/
def makeVersions (mutation : ResourceMutation) (prepared : Prepared) (noOp : Bool) :
    Except Stop Versions := do
  let subject ← subjectRecipe options tx mutation prepared noOp
  let source ← sourceRecipe options tx mutation prepared noOp subject
  checkMultiplicities options tx mutation prepared
  let native ← nativeContext options mutation subject source
  pure { after := subject.map (materializeSubject native)
         sourceAfter := source.map (materializeBead native) }

/-- The policy on the subject, then the one on its owning source. -/
def checkPolicy (mutation : ResourceMutation) (prepared : Prepared) (versions : Versions) :
    Except Stop Unit := do
  check ((if mutation.creating then versions.after.any options.policy.canCreate
    else prepared.subject.before.any fun before ↦
      options.policy.canWrite before versions.after) = true) (refusal .forbidden)
  match prepared.source, versions.sourceAfter with
  | some source, some sourceAfter =>
    check (options.policy.canWrite (.bead source) (some (.bead sourceAfter)) = true)
      (refusal .forbidden)
  | _, _ => .ok ()

/-- The edits of an update, both documents together. -/
def mutationChanges : ResourceMutation → ObjectChange
  | .update _ input => input.propertiesChange.getD [] ++ input.metadataChange.getD []
  | _ => []

def checkConditions (mutation : ResourceMutation) (prepared : Prepared) : Except Stop Unit := do
  check (∀ expected ∈ mutation.expectedRevision,
      prepared.subject.before.map (fun before ↦ before.fields.revision) = some expected)
    (refusal .revisionMismatch)
  check (¬ (mutation.deleting = true ∧ mutation.resourceKind = .bead ∧
      tx.incidentLinks prepared.subject.id ≠ [])) (refusal .incidentLinksExist)
  let changes := mutationChanges mutation
  check (exceeds options.limits.patchOperations changes.length = false) (refusal .limitExceeded)
  check ((changes.all fun change ↦
      !exceeds options.limits.patchPathBytes change.path.utf8ByteSize &&
        !exceeds options.limits.patchPathDepth change.pathDepth) = true) (refusal .limitExceeded)

/-- The column of an endpoint: a local path, or the external URI. -/
def endpointColumn (scope : UrlPath.Scope) (reference : Reference) : String :=
  (scope.localPath reference.uri).getD reference.uri

def recordShape (scope : UrlPath.Scope) : ResourceRecord → ResourceShape
  | .bead _ => .bead
  | .link record => .link (endpointColumn scope record.source) (endpointColumn scope record.target)

/-- The records of a mutation that are written, the subject first. -/
def Versions.records (versions : Versions) : List ResourceRecord :=
  versions.after.toList ++ versions.sourceAfter.toList.map ResourceRecord.bead

def checkSizes (record : ResourceRecord) : Except Stop Unit :=
  check (exceeds options.limits.propertiesBytes
        (options.sizes.properties record.fields.properties) = false ∧
      exceeds options.limits.representationBytes (options.sizes.record record) = false)
    (refusal .limitExceeded)

/-- The row of a record; a record outside the Scope has no key to bind. -/
def writtenRow (record : ResourceRecord) : Except Stop StoredResource := do
  let id ← require (options.scope.localPath record.id)
    (.fault "Provided value cannot be bound to SQLite parameter 1.")
  pure { id, shape := recordShape options.scope record, body := record }

def mutationOutcome (mutation : ResourceMutation) (prepared : Prepared) (versions : Versions) :
    Except Stop MutationOutcome :=
  let source := versions.sourceAfter.map fun source ↦ (source.id, source.revision)
  match mutation, versions.after, prepared.subject.before with
  | .delete kind _ _, _, some before =>
    .ok (.deleted kind before.id before.fields.type before.fields.revision source)
  | .update _ _, some after, _ => .ok (.updated after source)
  | _, some after, _ => .ok (.created after source)
  | _, _, _ => .error (.fault "mutation lost its record")

/-- The rows of a mutation, the subject first; a no-op writes none. -/
def writtenRows (noOp : Bool) (versions : Versions) : Except Stop (List StoredResource) :=
  if noOp then .ok [] else versions.records.mapM (writtenRow options)

def evaluate (mutation : ResourceMutation) : Except Stop ResourceEvaluation := do
  let prepared ← prepare options tx mutation
  let noOp := isNoOp mutation prepared
  let versions ← makeVersions options tx mutation prepared noOp
  checkPolicy options mutation prepared versions
  checkConditions options tx mutation prepared
  versions.records.forM (checkSizes options)
  let outcome ← mutationOutcome mutation prepared versions
  let writes ← writtenRows options noOp versions
  pure { outcome, writes
         resolutions := prepared.subject.resolutions ++
           endpointResolutions mutation prepared.endpoints
         deleted := if mutation.deleting then some prepared.subject.id else none }

end Final

end Bdp.Evaluator
