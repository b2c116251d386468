import Bdp.Library.FormEncoding
import Bdp.Evaluator.ReadAddress
import Bdp.Transaction.Tokens

/-!
# Continuation navigation

The URL under which the first page of a request is stored, the cursor that a next link adds to it,
and what a continuation request is read as. A URL is given by its serialized text, without a
fragment.
-/

namespace Bdp.Navigation

open Evaluator
open UrlPath (Scope)
open Transaction (maxSafeInteger)

section Urls

/-- A URL with its search parameters. -/
structure LinkUrl where
  base : List Char
  parameters : List (String × String)
  deriving DecidableEq

/-- `searchParams.set`: the first parameter of the name takes the value, its others are removed. -/
def setParameter (name value : String) : List (String × String) → List (String × String)
  | [] => [(name, value)]
  | pair :: rest =>
    if pair.1 = name then (name, value) :: rest.filter fun other ↦ other.1 != name
    else pair :: setParameter name value rest

def LinkUrl.set (url : LinkUrl) (name value : String) : LinkUrl :=
  { url with parameters := setParameter name value url.parameters }

def LinkUrl.delete (url : LinkUrl) (name : String) : LinkUrl :=
  { url with parameters := url.parameters.filter fun pair ↦ pair.1 != name }

def LinkUrl.href (url : LinkUrl) : List Char :=
  url.base ++ if url.parameters = [] then [] else '?' :: FormEncoding.serialize url.parameters

/-- `scheme://authority` and the path behind it. -/
def splitOrigin (base : List Char) : List Char × List Char :=
  let rest := (base.dropWhile (· ≠ ':')).drop 3
  (base.takeWhile (· ≠ ':') ++ "://".toList ++ rest.takeWhile (· ≠ '/'),
    rest.dropWhile (· ≠ '/'))

variable (lossy : List UInt8 → String)

/-- `new URL` of a serialized URL. -/
def LinkUrl.parse (text : List Char) : LinkUrl where
  base := text.takeWhile (· ≠ '?')
  parameters := FormEncoding.parse lossy ((text.dropWhile (· ≠ '?')).drop 1)

def requestUrl (text : List Char) : RequestUrl where
  origin := (splitOrigin (LinkUrl.parse lossy text).base).1
  pathname := (splitOrigin (LinkUrl.parse lossy text).base).2
  parameters := (LinkUrl.parse lossy text).parameters
  hasSearch := (text.dropWhile (· ≠ '?')).drop 1 != []
  hasHash := false
  href := String.ofList text

end Urls

section Requests

/-- A request for a first page. A selector is Unicode text: its grammar refuses unpaired
surrogates. -/
inductive PageRequest where
  | beads (type conformsTo : Option String) (limit : Option ℕ) (selector : Option String)
  | links (filters : CollectionFilters) (limit : Option ℕ) (selector : Option String)
  | types (limit : Option ℕ)
  | beadLinks (bead : String) (direction : Option Direction) (limit : Option ℕ)
  deriving DecidableEq

def PageRequest.limit : PageRequest → Option ℕ
  | .beads _ _ limit _ | .links _ limit _ | .types limit | .beadLinks _ _ limit => limit

def PageRequest.toRequest : PageRequest → ReadRequest
  | .beads type conformsTo limit selector => .collection .beads
      { type, conformsTo, source := none, target := none, endpoint := none }
      { limit, selector, continuation := none }
  | .links filters limit selector => .collection .links filters
      { limit, selector, continuation := none }
  | .types limit => .types { limit, selector := none, continuation := none }
  | .beadLinks bead direction limit => .beadLinks bead direction
      { limit, selector := none, continuation := none }

/-- The request passes its variant's validation, and its limit is a positive safe integer, as the
pagination demands. -/
def PageRequest.Valid (ports : UrlPorts) (scope : Scope) (request : PageRequest) : Prop :=
  validateRequest ports scope request.toRequest = .ok () ∧
    ∀ limit ∈ request.limit, 1 ≤ limit ∧ limit ≤ maxSafeInteger

def directionText : Direction → String
  | .inbound => "inbound"
  | .outbound => "outbound"
  | .both => "both"

/-- The parameters of a continuation URL in the order in which they are set. -/
def continuationFields : PageRequest → List (String × Option String)
  | .beads type conformsTo limit selector =>
    [("type", type), ("conformsTo", conformsTo), ("selector", selector),
      ("limit", limit.map toString)]
  | .links filters limit selector =>
    [("type", filters.type), ("conformsTo", filters.conformsTo), ("source", filters.source),
      ("target", filters.target), ("endpoint", filters.endpoint), ("selector", selector),
      ("limit", limit.map toString)]
  | .types limit => [("limit", limit.map toString)]
  | .beadLinks _ direction limit =>
    [("view", some "links"), ("direction", direction.map directionText),
      ("limit", limit.map toString)]

def continuationBase (scope : Scope) : PageRequest → String
  | .beads .. => scope.href ++ "bdp/beads"
  | .links .. => scope.href ++ "bdp/links"
  | .types _ => scope.href ++ "types/"
  | .beadLinks bead _ _ => bead

def setFields (fields : List (String × Option String)) (url : LinkUrl) : LinkUrl :=
  fields.foldl (fun url field ↦ field.2.elim url (url.set field.1)) url

variable (lossy : List UInt8 → String) (scope : Scope)

def continuationUrlFor (request : PageRequest) : List Char :=
  (setFields (continuationFields request)
    (LinkUrl.parse lossy (continuationBase scope request).toList)).href

/-- The next link of the pagination: the stored URL with the cursor. -/
def withCursor (stored : List Char) (token : String) : List Char :=
  ((LinkUrl.parse lossy stored).set "cursor" token).href

def continuationOf : ReadRequest → Option String
  | .collection _ _ controls | .types controls | .beadLinks _ _ controls => controls.continuation
  | _ => none

/-- The kinds agree, with the collection or the Bead. -/
def sameKind : ReadRequest → ReadRequest → Bool
  | .collection collection _ _, .collection other _ _ => collection = other
  | .types _, .types _ => true
  | .beadLinks bead _ _, .beadLinks other _ _ => bead = other
  | _, _ => false

/-- The token of a continuation, and the URL that its projection is. -/
def continuationDetails (ports : UrlPorts) (operation : ReadRequest) :
    Except ReadStop (String × List Char) := do
  let continuation ← require (continuationOf operation) (.problem .invalidParameter)
  let url := requestUrl lossy continuation.toList
  let parsed ← requestFromUrl ports scope url
  check (continuationOf parsed = some url.href ∧ sameKind parsed operation = true)
    (.problem .invalidParameter)
  let token ← require (url.parameter "cursor") (.problem .invalidParameter)
  pure (token, ((LinkUrl.parse lossy continuation.toList).delete "cursor").href)

/-- Every next link of the request is read as a continuation of it, with its cursor and its
projection. -/
def RoundTrips (ports : UrlPorts) (request : PageRequest) : Prop :=
  ∀ token, ∃ parsed,
    requestFromUrl ports scope
        (requestUrl lossy (withCursor lossy (continuationUrlFor lossy scope request) token)) =
      .ok parsed ∧
    (continuationOf parsed).isSome = true ∧ validateRequest ports scope parsed = .ok () ∧
    continuationDetails lossy scope ports parsed =
      .ok (token, continuationUrlFor lossy scope request)

/-- The request is for the Links of a Bead below `types/`. -/
def belowTypes : PageRequest → Bool
  | .beadLinks bead _ _ => (scope.localPath bead).any typesPath
  | _ => false

end Requests

end Bdp.Navigation
