import Bdp.Evaluator.OwnedLaw

/-!
# Read requests

How the server reads the URL of a request: below the Scope it decides among the collections of the
protocol, the Types, and the Resources, whose identity is rebuilt from the path. The alias root is
classified before. What the URL parser and the URI format say of a parameter stays open.
-/

namespace Bdp.Evaluator

open UrlPath (Scope hasScheme canonicalPath canonicalSegment)

inductive ReadProblem where
  | resourceNotFound
  | invalidParameter
  | limitExceeded
  deriving DecidableEq, Repr

/-- A request ends in a declared problem, or the server throws. -/
inductive ReadStop where
  | problem (problem : ReadProblem)
  | fault (message : String)
  deriving DecidableEq, Repr

inductive Collection where
  | beads
  | links
  deriving DecidableEq, Repr

inductive Direction where
  | inbound
  | outbound
  | both
  deriving DecidableEq, Repr

/-- What a request takes the named Resource for. -/
inductive RequestedResource where
  | bead
  | link
  | resource
  deriving DecidableEq, Repr

structure CollectionFilters where
  type : Option String
  conformsTo : Option String
  source : Option String
  target : Option String
  endpoint : Option String
  deriving DecidableEq, Repr

structure PageControls where
  limit : Option ℕ
  selector : Option String
  continuation : Option String
  deriving DecidableEq, Repr

inductive ReadRequest where
  | discovery
  | collection (collection : Collection) (filters : CollectionFilters) (controls : PageControls)
  | types (controls : PageControls)
  | typeResource (id : String)
  | resource (requested : RequestedResource) (id : String)
  | properties (requested : RequestedResource) (id : String)
  | beadLinks (bead : String) (direction : Option Direction) (controls : PageControls)
  deriving DecidableEq, Repr

/-- A parsed URL. -/
structure RequestUrl where
  origin : List Char
  pathname : List Char
  parameters : List (String × String)
  hasSearch : Bool
  hasHash : Bool
  href : String
  deriving DecidableEq, Repr

/-- What is asked of the URL parser and of the URI format. -/
structure UrlPorts where
  canonicalTypeId : String → Bool
  isUri : String → Bool
  insideScope : String → Bool
  hasCredentials : String → Bool

namespace RequestUrl

variable (url : RequestUrl)

def parameter (name : String) : Option String := url.parameters.lookup name

/-- Every parameter is allowed and given once. -/
def validateParameters (allowed : List String) : Except ReadStop Unit :=
  check ((url.parameters.all fun parameter ↦ allowed.contains parameter.1 &&
      (url.parameters.filter fun other ↦ other.1 == parameter.1).length == 1) = true)
    (.problem .invalidParameter)

end RequestUrl

section Parameters

variable (ports : UrlPorts) (scope : Scope)

def parseOptionalLimit : Option String → Except ReadStop (Option ℕ)
  | none => .ok none
  | some value => do
    let digits := value.toList
    check (digits.all Char.isDigit = true ∧ digits ≠ [] ∧ digits.head? ≠ some '0')
      (.problem .invalidParameter)
    let limit : ℕ := digits.foldl (fun limit digit ↦ 10 * limit + (digit.toNat - 48)) 0
    check (limit ≤ 9007199254740991) (.problem .invalidParameter)
    pure (some limit)

def resolveCanonicalLocalTypeId (localId : String) : Except String String := do
  check (localId.toList.contains '?' = false ∧ localId.toList.contains '#' = false)
    "local Resource ID must not contain query or fragment"
  let segments := localId.toList.splitOn '/'
  check (segments.head? = some "types".toList ∧ 2 ≤ segments.length)
    "local Type ID must begin with types/ and contain an ID path"
  check (segments.tail.all canonicalSegment = true) "local Resource ID is not canonically encoded"
  require (scope.resolve localId) "Invalid URL"

def parseOptionalTypeParameter : Option String → Except ReadStop (Option String)
  | none => .ok none
  | some value => do
    check (ports.canonicalTypeId value = true) (.problem .invalidParameter)
    match scope.localPath value with
    | none => pure (some value)
    | some localId => do
      check (resolveCanonicalLocalTypeId scope localId = .ok value) (.problem .invalidParameter)
      pure (some value)

def normalizeEndpointParameter : Option String → Except ReadStop (Option String)
  | none => .ok none
  | some value =>
    if ports.isUri value = false then
      match resolveCanonicalLocalResourceId scope value with
      | .ok resolved => .ok (some resolved)
      | .error _ => .error (.problem .invalidParameter)
    else if ports.insideScope value = false then .ok (some value)
    else do
      check (ports.hasCredentials value = false) (.problem .invalidParameter)
      let localId ← require (scope.localPath value) (.problem .invalidParameter)
      check (resolveCanonicalLocalResourceId scope localId = .ok value)
        (.problem .invalidParameter)
      pure (some value)

end Parameters

section Urls

variable (ports : UrlPorts) (scope : Scope) (url : RequestUrl)

/-- What follows the path of the Scope in the path of a URL. -/
def relativePath : Option (List Char) :=
  if url.origin = scope.origin then
    url.pathname.dropPrefix? (UrlPath.Scope.directoryPath scope.directories)
  else none

/-- The path of an alias URL; an alias URL has neither query nor fragment. -/
def classifyAliasPath : Except ReadStop (Option String) :=
  match (relativePath scope url).bind fun relative ↦ relative.dropPrefix? "alias/".toList with
  | none => .ok none
  | some path => do
    check (url.hasSearch = false ∧ url.hasHash = false) (.problem .resourceNotFound)
    check (path ≠ []) (.problem .resourceNotFound)
    check (canonicalPath (String.ofList path) = true) (.problem .resourceNotFound)
    pure (some (String.ofList path))

/-- The request for a collection of Beads or Links. -/
def collectionRequest (collection : Collection) : Except ReadStop ReadRequest := do
  url.validateParameters (match collection with
    | .beads => ["type", "conformsTo", "selector", "limit", "cursor"]
    | .links => ["type", "conformsTo", "source", "target", "endpoint", "selector", "limit",
        "cursor"])
  let limit ← parseOptionalLimit (url.parameter "limit")
  let type ← parseOptionalTypeParameter ports scope (url.parameter "type")
  let conformsTo ← parseOptionalTypeParameter ports scope (url.parameter "conformsTo")
  if (url.parameter "cursor").isSome then
    pure (.collection collection
      { type := none, conformsTo := none, source := none, target := none, endpoint := none }
      { limit := none, selector := none, continuation := some url.href })
  else
    let controls := { limit, selector := url.parameter "selector", continuation := none }
    match collection with
    | .beads => pure (.collection .beads
        { type, conformsTo, source := none, target := none, endpoint := none } controls)
    | .links => do
      let source ← normalizeEndpointParameter ports scope (url.parameter "source")
      let target ← normalizeEndpointParameter ports scope (url.parameter "target")
      let endpoint ← normalizeEndpointParameter ports scope (url.parameter "endpoint")
      pure (.collection .links { type, conformsTo, source, target, endpoint } controls)

/-- The request for the inventory of Types. -/
def typesRequest : Except ReadStop ReadRequest := do
  url.validateParameters ["limit", "cursor"]
  let limit ← parseOptionalLimit (url.parameter "limit")
  if (url.parameter "cursor").isSome then
    pure (.types { limit := none, selector := none, continuation := some url.href })
  else pure (.types { limit, selector := none, continuation := none })

/-- A refused path is not found; an identity that is no URL is thrown. -/
def resolvedIdentity (resolved : Except String String) : Except ReadStop String :=
  match resolved with
  | .ok id => .ok id
  | .error message =>
    if message = "Invalid URL" then .error (.fault message)
    else .error (.problem .resourceNotFound)

/-- The view of a Resource that the parameters name. -/
def viewRequest (id : String) : Except ReadStop ReadRequest :=
  match url.parameter "view" with
  | none => do
    url.validateParameters []
    pure (.resource .resource id)
  | some view =>
    if view = "links" then do
      url.validateParameters ["view", "direction", "limit", "cursor"]
      let direction ← match (url.parameter "direction").getD "both" with
        | "inbound" => .ok Direction.inbound
        | "outbound" => .ok Direction.outbound
        | "both" => .ok Direction.both
        | _ => .error (.problem .invalidParameter)
      let limit ← parseOptionalLimit (url.parameter "limit")
      if (url.parameter "cursor").isSome then
        pure (.beadLinks id none { limit := none, selector := none, continuation := some url.href })
      else pure (.beadLinks id (some direction) { limit, selector := none, continuation := none })
    else if view = "properties" then do
      url.validateParameters ["view"]
      pure (.properties .resource id)
    else .error (.problem .invalidParameter)

def requestFromUrl : Except ReadStop ReadRequest :=
  match relativePath scope url with
  | none => .error (.problem .resourceNotFound)
  | some relative =>
    let segments := (relative.splitOn '/').filter fun segment ↦ segment != []
    let localId := String.ofList (['/'].intercalate segments)
    if relative = "bdp/beads".toList then collectionRequest ports scope url .beads
    else if relative = "bdp/links".toList then collectionRequest ports scope url .links
    else if relative = "types/".toList then typesRequest url
    else if segments.head? = some "types".toList ∧ 2 ≤ segments.length then
      if url.parameters ≠ [] ∨ url.hasHash = true then .error (.problem .invalidParameter)
      else do
        let id ← resolvedIdentity (resolveCanonicalLocalTypeId scope localId)
        pure (.typeResource id)
    else if segments ≠ [] ∧ segments.head? ≠ some "bdp".toList then
      if relative ≠ localId.toList then .error (.problem .resourceNotFound)
      else do
        let id ← resolvedIdentity (resolveCanonicalLocalResourceId scope localId)
        viewRequest url id
    else .error (.problem .resourceNotFound)

end Urls

section Validation

variable (ports : UrlPorts) (scope : Scope)

/-- The identity of a request is the canonical URL of a local path. -/
def validateLocalResourceIdentity (id : String) : Except ReadStop Unit := do
  let localId ← require (scope.localPath id) (.problem .invalidParameter)
  match resolveCanonicalLocalResourceId scope localId with
  | .ok resolved => check (resolved = id) (.problem .invalidParameter)
  | .error message =>
    if message = "Invalid URL" then .error (.fault message)
    else .error (.problem .invalidParameter)

def collectionControlIssue (controls : PageControls) (filtered : Bool) : Except ReadStop Unit :=
  check (controls.continuation.isSome = true → controls.limit = none ∧ controls.selector = none ∧
    filtered = false) (.problem .invalidParameter)

/-- An endpoint filter is normalized already. -/
def normalizedEndpoint (value : Option String) : Except ReadStop Unit := do
  let normalized ← normalizeEndpointParameter ports scope value
  check (normalized = value) (.problem .invalidParameter)

/-- The validation of a request by its variant. -/
def validateRequest : ReadRequest → Except ReadStop Unit
  | .discovery => .ok ()
  | .types controls => collectionControlIssue controls false
  | .typeResource id => do
    let _ ← parseOptionalTypeParameter ports scope (some id)
    pure ()
  | .resource _ id => validateLocalResourceIdentity scope id
  | .properties _ id => validateLocalResourceIdentity scope id
  | .beadLinks bead direction controls => do
    collectionControlIssue controls direction.isSome
    validateLocalResourceIdentity scope bead
  | .collection collection filters controls => do
    collectionControlIssue controls ([filters.type, filters.conformsTo, filters.source,
      filters.target, filters.endpoint].any Option.isSome)
    let _ ← parseOptionalTypeParameter ports scope filters.type
    let _ ← parseOptionalTypeParameter ports scope filters.conformsTo
    match collection with
    | .beads => pure ()
    | .links => [filters.source, filters.target, filters.endpoint].forM fun value ↦
        normalizedEndpoint ports scope value

end Validation

end Bdp.Evaluator
