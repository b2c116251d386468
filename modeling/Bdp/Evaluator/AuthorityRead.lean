import Bdp.Evaluator.ReadRequests

/-!
# The authority read plane

Reads of one committed state. Every row that is read is checked: its record against its own key, its
identities against the Scope, its columns against its body, and each Link that a Bead lists against
the row of that Link. A check that fails is an integrity error. What was checked once is not checked
again in the source; a read sees one state, so here every check is made where it is needed.
-/

namespace Bdp.Evaluator

open Recovery (ResourceKind ResourceShape)
open Retained (JsonObject)
open Transaction (Reference)
open UrlPath (Scope)

/-- What the plane is prepared with, and what one principal may read. -/
structure ReadPlane where
  ports : UrlPorts
  aliasesScope : String → Bool
  types : List TypeDescriptor
  /-- Whether a Type conforms to another one. -/
  conforms : String → String → Bool
  canReadType : TypeDescriptor → Bool
  /-- What the limits of pages and selectors refuse. -/
  control : PageControls → Option ReadProblem
  serviceDescription : String
  entityTag : String → String

variable (plane : ReadPlane) (options : ResourceEvaluationOptions) (tx : ResourceTransaction)

section Checks

def integrity {α : Type} (checked : Except String α) : Except ReadStop α :=
  checked.mapError ReadStop.fault

def validateServerLink (link : LinkRecord) : Except String Unit := do
  validateServerLocalResourceId options.scope link.id
  let sourceInScope ← validateServerEndpoint options.scope plane.aliasesScope link.source
  let targetInScope ← validateServerEndpoint options.scope plane.aliasesScope link.target
  check (sourceInScope = true ∨ targetInScope = true)
    "ScopePort Link must have at least one in-Scope endpoint"

def validateServerBead (bead : BeadRecord) : Except String Unit := do
  validateServerLocalResourceId options.scope bead.id
  (bead.ownedLinks.getD []).forM fun entry ↦ entry.2.forM (validateServerLink plane options)

/-- What follows as many characters as the Scope has. -/
def localSlice (id : String) : String :=
  String.ofList (id.toList.drop options.scope.href.toList.length)

def endpointIndex (reference : Reference) : Except String String := do
  let inScope ← validateServerEndpoint options.scope plane.aliasesScope reference
  pure (if inScope then localSlice options reference.uri else reference.uri)

/-- Whatever a stored record is refused for is reported alike. -/
def validStored {α : Type} (checked : Except String α) : Except String α :=
  checked.mapError fun _ ↦ "invalid stored Resource"

/-- The identities of a record, and the columns of its row. -/
def acceptRecord (row : StoredResource) : ResourceRecord → Except String Unit
  | .bead bead => validStored (validateServerBead plane options bead)
  | .link link => do
    validStored (validateServerLink plane options link)
    let source ← validStored (endpointIndex plane options link.source)
    let target ← validStored (endpointIndex plane options link.target)
    check (row.shape.source = some source ∧ row.shape.target = some target)
      "Link endpoint index disagrees with its body"

def accept (row : StoredResource) : Except String ResourceRecord := do
  let record ← (storedRecord options row).mapError fun _ ↦ "invalid stored Resource"
  acceptRecord plane options row record
  pure record

def point (id : String) : Except String (Option ResourceRecord) :=
  match tx.resource id with
  | none => .ok none
  | some row => do
    check (row.id = id) "point row differs from requested identity"
    let record ← accept plane options row
    pure (some record)

/-- Every Link that a Bead lists is the record of its own row. -/
def checkOwned : ResourceRecord → Except String Unit
  | .link _ => .ok ()
  | .bead bead => (bead.ownedLinks.getD []).forM fun entry ↦ entry.2.forM fun inline ↦ do
    let found ← point plane options tx (localSlice options inline.id)
    check (found = some (.link inline) ∧ inline.source.uri = bead.id)
      "listed owned Link disagrees with its first-class row"

/-- The record under a key, with the Links that it lists. -/
def graphPoint (id : String) : Except String (Option ResourceRecord) := do
  let found ← point plane options tx id
  match found with
  | none => pure none
  | some record => do
    checkOwned plane options tx record
    pure (some record)

def graphAccept (row : StoredResource) : Except String ResourceRecord := do
  let record ← accept plane options row
  checkOwned plane options tx record
  pure record

end Checks

section Visibility

/-- The Bead that an in-Scope endpoint names, read with its checks. -/
def checkedEndpoint (reference : Reference) : Except String (Option (List ResourceRecord)) :=
  match options.scope.localPath reference.uri with
  | none => .ok (some [])
  | some id => do
    match ← graphPoint plane options tx id with
    | some (.bead bead) => pure (some [.bead bead])
    | _ => pure none

def checkedBeads : List LinkRecord → Except String (Option (List ResourceRecord))
  | [] => .ok (some [])
  | link :: links =>
    if options.policy.canRead (.link link) = false then .ok none
    else do
      let source ← checkedEndpoint plane options tx link.source
      match source with
      | none => pure none
      | some source => do
        let target ← checkedEndpoint plane options tx link.target
        match target with
        | none => pure none
        | some target => do
          let more ← checkedBeads links
          pure (more.map fun more ↦ source ++ target ++ more)

def visitChecked : ℕ → List String → List ResourceRecord → Except String Bool
  | 0, _, _ => .error "unbounded closure"
  | _ + 1, _, [] => .ok true
  | fuel + 1, seen, current :: pending =>
    if seen.contains current.id then visitChecked fuel seen pending
    else if options.policy.canRead current = false then .ok false
    else do
      match ← checkedBeads plane options tx current.links with
      | none => pure false
      | some found => visitChecked fuel (current.id :: seen) (found.reverse ++ pending)

/-- Whether a record and everything that it leads to may be read. -/
def graphVisible (record : ResourceRecord) : Except String Bool := do
  checkOwned plane options tx record
  visitChecked plane options tx (closureBound tx record) [] [record]

end Visibility

section Reads

/-- What a read gives. -/
inductive ReadResult where
  | discovery
  | descriptor (descriptor : TypeDescriptor)
  | inventory (types : List TypeDescriptor)
  | record (record : ResourceRecord)
  | properties (properties : JsonObject) (revision : String)
  | page (items : List ResourceRecord)
  | continuation (url : String)

/-- Whether a record meets the filters of a collection. -/
def structural (collection : Collection) (filters : CollectionFilters) (record : ResourceRecord) :
    Bool :=
  match collection, record with
  | .beads, .bead bead => filters.type.all (· == bead.type) &&
      filters.conformsTo.all (plane.conforms bead.type)
  | .links, .link link => filters.type.all (· == link.type) &&
      filters.conformsTo.all (plane.conforms link.type) &&
      filters.source.all (· == link.source.uri) && filters.target.all (· == link.target.uri) &&
      filters.endpoint.all (fun endpoint ↦ endpoint == link.source.uri || endpoint == link.target.uri)
  | _, _ => false

/-- Whether an incident Link has the requested direction. -/
def incident (bead : String) (direction : Option Direction) : ResourceRecord → Except String Bool
  | .bead _ => .error "incident index returned a Bead"
  | .link link => do
    check (link.source.uri = bead ∨ link.target.uri = bead)
      "incident index returned a nonincident Link"
    pure (match direction with
      | some .inbound => link.target.uri == bead
      | some .outbound => link.source.uri == bead
      | _ => true)

/-- The visible records of rows that meet a filter, each once. -/
def visibleItems (admits : ResourceRecord → Except String Bool) :
    List StoredResource → List ResourceRecord → Except String (List ResourceRecord)
  | [], items => .ok items
  | row :: rows, items => do
    let record ← graphAccept plane options tx row
    let admitted ← admits record
    let visible ← if admitted then graphVisible plane options tx record else pure false
    visibleItems admits rows
      (if visible && !items.any (fun item ↦ item.id == record.id) then items ++ [record] else items)

/-- What is requested disagrees with the kind of the record. -/
def disagrees : RequestedResource → ResourceRecord → Bool
  | .resource, _ => false
  | .bead, record => record.kind != .bead
  | .link, record => record.kind != .link

/-- A point read: nothing, or the record when it is visible. -/
def pointRead (requested : RequestedResource) (id : String) : Except ReadStop ResourceRecord := do
  let found ← integrity (graphPoint plane options tx (localSlice options id))
  let record ← require found (.problem .resourceNotFound)
  check (disagrees requested record = false)
    (.fault "requested Resource kind disagrees with row")
  let visible ← integrity (graphVisible plane options tx record)
  check (visible = true) (.problem .resourceNotFound)
  pure record

/-- Pages stop at the limits before anything is read; a continuation is read elsewhere. -/
def pageRead (controls : PageControls) (items : Except ReadStop (List ResourceRecord)) :
    Except ReadStop ReadResult :=
  match plane.control controls, controls.continuation with
  | some problem, _ => .error (.problem problem)
  | none, some url => .ok (.continuation url)
  | none, none => items.map ReadResult.page

def incidentRead (bead : String) (direction : Option Direction) :
    Except ReadStop (List ResourceRecord) := do
  let found ← integrity (graphPoint plane options tx (localSlice options bead))
  let anchor ← require found (.problem .resourceNotFound)
  check (anchor.kind = .bead) (.fault "incident anchor is not a Bead")
  let visible ← integrity (graphVisible plane options tx anchor)
  check (visible = true) (.problem .resourceNotFound)
  integrity (visibleItems plane options tx (incident bead direction)
    (tx.incidentLinks (localSlice options bead)) [])

def materialize : ReadRequest → Except ReadStop ReadResult
  | .discovery => .ok .discovery
  | .typeResource id => do
    let descriptor ← require (plane.types.find? fun descriptor ↦ descriptor.id == id)
      (.problem .resourceNotFound)
    check (plane.canReadType descriptor = true) (.problem .resourceNotFound)
    pure (.descriptor descriptor)
  | .types controls =>
    match plane.control controls, controls.continuation with
    | some problem, _ => .error (.problem problem)
    | none, some url => .ok (.continuation url)
    | none, none => .ok (.inventory (plane.types.filter plane.canReadType))
  | .resource requested id => (pointRead plane options tx requested id).map ReadResult.record
  | .properties requested id => (pointRead plane options tx requested id).map fun record ↦
      .properties record.fields.properties record.fields.revision
  | .beadLinks bead direction controls =>
    pageRead plane controls (incidentRead plane options tx bead direction)
  | .collection collection filters controls =>
    pageRead plane controls (integrity (visibleItems plane options tx
      (fun record ↦ .ok (structural plane collection filters record)) tx.rows []))

/-- Where an alias leads: a visible live Bead. -/
def resolveAlias (path : String) : Except ReadStop String := do
  let target ← require (tx.alias path) (.problem .resourceNotFound)
  integrity ((validateServerLocalResourceId options.scope (options.scope.href ++ target)).mapError
    fun _ ↦ "invalid stored alias target")
  let found ← integrity (graphPoint plane options tx target)
  check (found.all (fun record ↦ record.kind == .bead) = true)
    (.fault "alias target row is not a Bead")
  let record ← require found (.problem .resourceNotFound)
  let visible ← integrity (graphVisible plane options tx record)
  check (visible = true) (.problem .resourceNotFound)
  pure record.id

end Reads

section Routes

inductive HttpResponse where
  | problem (problem : ReadProblem)
  | redirect (target : String)
  | description
  | discovery
  | data (result : ReadResult) (entityTag : Option String)

/-- The entity tag of a read: the revision of a full or a properties representation. -/
def observedTag : ReadResult → Option String
  | .record record => some (plane.entityTag record.fields.revision)
  | .properties _ revision => some (plane.entityTag revision)
  | _ => none

/-- Perform a request after the validation of its variant. -/
def performRead (request : ReadRequest) : Except ReadStop ReadResult := do
  validateRequest plane.ports options.scope request
  materialize plane options tx request

/-- A declared problem is a response; what is thrown stays. -/
def respond (response : Except ReadStop HttpResponse) : Except String HttpResponse :=
  match response with
  | .ok response => .ok response
  | .error (.problem problem) => .ok (.problem problem)
  | .error (.fault message) => .error message

/-- What is served below the alias root: the redirect of a live alias, or nothing. -/
def aliasRoute (url : RequestUrl) : Except ReadStop (Option HttpResponse) := do
  match ← classifyAliasPath options.scope url with
  | none => pure none
  | some path =>
    match resolveAlias plane options tx path with
    | .ok target => pure (some (.redirect target))
    | .error (.problem .resourceNotFound) => pure none
    | .error stop => .error stop

def readRoute (url : RequestUrl) : Except String HttpResponse :=
  respond do
    check (url.origin = options.scope.origin) (.problem .resourceNotFound)
    match ← aliasRoute plane options tx url with
    | some response => pure response
    | none =>
      if url.pathname = UrlPath.Scope.directoryPath options.scope.directories then
        pure .description
      else if url.href = plane.serviceDescription then pure .discovery
      else do
        let request ← requestFromUrl plane.ports options.scope url
        let result ← performRead plane options tx request
        pure (.data result (observedTag plane result))

end Routes

end Bdp.Evaluator
