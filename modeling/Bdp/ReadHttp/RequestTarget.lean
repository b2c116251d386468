import Bdp.Library.SpecialUrl

/-!
# Raw request targets

The target of an HTTP request becomes a URL at the origin of the Scope. A guard cuts the path and
the query out of the target by hand and compares them with what a URL parser makes of the whole
target; a target that does not pass becomes a placeholder.
-/

namespace Bdp.ReadHttp

open CodeUnits SpecialUrl

section Authority

def isDigitUnit (unit : ℕ) : Bool := decide (48 ≤ unit) && decide (unit ≤ 57)

def isHexUnit (unit : ℕ) : Bool :=
  isDigitUnit unit || (decide (97 ≤ lower unit) && decide (lower unit ≤ 102))

/-- The class of `RAW_AUTHORITY_REG_NAME`. -/
def isRegNameUnit (unit : ℕ) : Bool :=
  isDigitUnit unit || (decide (97 ≤ lower unit) && decide (lower unit ≤ 122)) ||
    (ascii ['.', '_', '~', '!', '$', '&', Char.ofNat 39, '(', ')', '*', '+', ',', ';', '=',
      '-']).contains unit

/-- The class of `RAW_AUTHORITY_IP_LITERAL`. -/
def isIpLiteralUnit (unit : ℕ) : Bool := isRegNameUnit unit || unit == 58

def isEscapedRun (inClass : ℕ → Bool) : Text → Bool
  | [] => true
  | 37 :: high :: low :: rest => isHexUnit high && isHexUnit low && isEscapedRun inClass rest
  | unit :: rest => inClass unit && isEscapedRun inClass rest

def isDigits (text : Text) : Bool := text != [] && text.all isDigitUnit

def isNormalizationSafeRawAuthority (authority : Text) : Bool :=
  if authority = [] ∨ authority.contains 64 then false
  else if authority.head? = some 91 then
    if authority.contains 93 = false then false
    else
      let literal := (authority.drop 1).takeWhile fun unit ↦ unit != 93
      let port := ((authority.drop 1).dropWhile fun unit ↦ unit != 93).drop 1
      literal != [] && isEscapedRun isIpLiteralUnit literal &&
        (port == [] || (port.head? == some 58 && isDigits (port.drop 1)))
  else if authority.contains 58 then
    let host := (authority.rdropWhile fun unit ↦ unit != 58).dropLast
    let port := authority.rtakeWhile fun unit ↦ unit != 58
    host != [] && isEscapedRun isRegNameUnit host && isDigits port
  else authority != [] && isEscapedRun isRegNameUnit authority

end Authority

section Guard

/-- The test of `%5c` in either case. -/
def hasEscapedBackslash : Text → Bool
  | [] => false
  | unit :: rest =>
    (unit == 37 && rest.head? == some 53 && (rest.drop 1).head?.map lower == some 99) ||
      hasEscapedBackslash rest

/-- Every `%2e` in either case becomes a dot. -/
def replaceEscapedDots : Text → Text
  | 37 :: 50 :: letter :: rest =>
    if lower letter = 101 then 46 :: replaceEscapedDots rest
    else 37 :: replaceEscapedDots (50 :: letter :: rest)
  | unit :: rest => unit :: replaceEscapedDots rest
  | [] => []

/-- What follows the scheme and its slashes, or two slashes. -/
def afterSlashes (target : Text) : Option Text :=
  match httpScheme target with
  | some (_, rest) => some rest
  | none => if [47, 47].isPrefixOf target then some (target.drop 2) else none

/-- The authority of the target and its path, up to the query. -/
def cutTarget (withoutQuery : Text) : Option Text × Text :=
  match afterSlashes withoutQuery with
  | none => (none, withoutQuery)
  | some rest =>
    (some (rest.takeWhile fun unit ↦ unit != 47),
      match rest.dropWhile fun unit ↦ unit != 47 with
      | [] => [47]
      | unit :: path => unit :: path)

/-- The base `http://request.invalid`. -/
def requestInvalid : Url where
  secure := false
  origin := ascii ['h', 't', 't', 'p', ':', '/', '/', 'r', 'e', 'q', 'u', 'e', 's', 't', '.', 'i',
    'n', 'v', 'a', 'l', 'i', 'd']
  path := [[]]
  query := none

variable (authorityOrigin : Bool → Text → Option Text)

def normalizationSafeRawRequestPath (target : Text) : Option Text :=
  if target.contains 35 then none
  else
    let withoutQuery := pathPart target
    let search := target.dropWhile fun unit ↦ unit != 63
    if withoutQuery.head? ≠ some 47 ∧ httpScheme withoutQuery = none then none
    else
      let (authority, pathname) := cutTarget withoutQuery
      if authority.any (!isNormalizationSafeRawAuthority ·) then none
      else if target.contains 92 ∨ hasEscapedBackslash pathname then none
      else if (pathname.splitOnP (· == 47)).any fun segment ↦
          [[46], [46, 46]].contains (replaceEscapedDots segment) then none
      else
        match parse authorityOrigin requestInvalid target with
        | none => none
        | some parsed =>
          if parsed.pathname ++ parsed.search = pathname ++ search then some (pathname ++ search)
          else none

end Guard

section Requests

/-- A Scope: an origin and a path from slash to slash. -/
structure RequestScope where
  secure : Bool
  origin : Text
  path : Text
  path_starts : path.head? = some 47
  path_ends : path.getLast? = some 47

def RequestScope.canonicalOrigin (scope : RequestScope) : Url where
  secure := scope.secure
  origin := scope.origin
  path := [[]]
  query := none

/-- The reference `.bdp-invalid-request-target`. -/
def invalidRequestTarget : Text :=
  ascii ['.', 'b', 'd', 'p', '-', 'i', 'n', 'v', 'a', 'l', 'i', 'd', '-', 'r', 'e', 'q', 'u', 'e',
    's', 't', '-', 't', 'a', 'r', 'g', 'e', 't']

/-- The URL of the request; none where the URL constructor throws. -/
def createCanonicalHttpRequest (authorityOrigin : Bool → Text → Option Text)
    (scope : RequestScope) (requestTarget : Option Text) : Option Url :=
  let target := requestTarget.getD [47]
  let pathAndQuery := normalizationSafeRawRequestPath authorityOrigin target
  parse authorityOrigin scope.canonicalOrigin (pathAndQuery.getD invalidRequestTarget)

end Requests

end Bdp.ReadHttp
