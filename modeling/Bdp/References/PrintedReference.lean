import Bdp.Admission.Lexemes
import Bdp.Library.Checked
import Bdp.Normalize.CanonicalUrls

/-!
# Printed references

References as rows print them, in a long and a short form, and the parsers that read an authored
reference. The reader classifies a text by how it begins, and cuts a revision at the first closing
bracket or the first at sign; the printer writes brackets around URLs only.
-/

namespace Bdp.References

open Admission CodeUnits Normalize

/-- An identity, and the revision that it is pinned to. -/
structure Reference where
  uri : Text
  revision : Option Text
  deriving DecidableEq

inductive RevisionSelection where
  | current
  | ordinal (ordinal : Text)
  | exact (token : Text)
  deriving DecidableEq

structure ReferenceSelection where
  uri : Text
  selection : Option RevisionSelection
  deriving DecidableEq

/-- A refusal of the reader, or of the artifact that it validates. -/
inductive InputError where
  | refused (message : String)
  | unsupported (message : String)
  | invalid
  deriving DecidableEq

/-- The URL parser of the platform and the URI format of the schema validator. -/
structure Platform where
  parse : UrlParser
  isJsonSchemaUri : Text → Bool

structure Policy where
  mutationSubject : Bool
  currentRead : Bool
  allowBatchReference : Bool
  allowOpaqueUri : Bool

def openBracket : ℕ := 91
def closeBracket : ℕ := 93
def atSign : ℕ := 64
def equalsSign : ℕ := 61

section Spelling

def lowerCase (unit : ℕ) : ℕ := if 65 ≤ unit ∧ unit ≤ 90 then unit + 32 else unit

/-- `/^https?:\/\//`. -/
def isLowerHttp (text : Text) : Bool :=
  (ascii "http://".toList).isPrefixOf text || (ascii "https://".toList).isPrefixOf text

/-- `/^https?:\/\//i`. -/
def isHttp (text : Text) : Bool := isLowerHttp (text.map lowerCase)

def batchText : Text := ascii "batch-ref::".toList

def isBatch (text : Text) : Bool := batchText.isPrefixOf text

/-- `/^[A-Za-z][A-Za-z0-9_-]*$/`. -/
def isName (text : Text) : Bool :=
  match text with
  | [] => false
  | first :: rest => isAlpha first && rest.all fun unit ↦
      isAlpha unit || decide (48 ≤ unit ∧ unit ≤ 57) || unit == 95 || unit == 45

/-- `/^[1-9][0-9]*$/`. -/
def isOrdinal (text : Text) : Bool :=
  match text with
  | [] => false
  | first :: rest => decide (49 ≤ first ∧ first ≤ 57) &&
      rest.all fun unit ↦ decide (48 ≤ unit ∧ unit ≤ 57)

def maximumOrdinal : Text := ascii "9223372036854775807".toList

end Spelling

section Printing

/-- An identity of the Scope is printed behind the Scope, in the short form. -/
def identity (scope : Text) (long : Bool) (uri : Text) : Text :=
  if !long && scope ≠ [] && scope.isPrefixOf uri then uri.drop scope.length else uri

def ref (scope : Text) (long : Bool) (reference : Reference) : Text :=
  let printed := identity scope long reference.uri
  match reference.revision with
  | none => printed
  | some revision =>
    (if isLowerHttp printed then openBracket :: printed ++ [closeBracket] else printed) ++
      atSign :: equalsSign :: revision

end Printing

section Reading

variable (platform : Platform)

def readText (value : Text) (label : String) : Except InputError Unit :=
  check (value ≠ [] ∧ isUnicodeScalarString value = true)
    (.refused (label ++ " must be a nonempty Unicode string"))

/-- An absolute URL as it is, or a local identity behind the Scope. -/
def absolute (input scope : Text) : Except InputError Text :=
  if isHttp input then do
    check (parseCanonicalHttpUrl platform.parse input = true) .invalid
    return input
  else do
    check (assertCanonicalPathSegments input = true) .invalid
    check (parseCanonicalHttpUrl platform.parse (scope ++ input) = true) .invalid
    return scope ++ input

def admitOrdinal (value : Text) : Except InputError Unit :=
  check (¬ (maximumOrdinal.length < value.length ∨
      value.length = maximumOrdinal.length ∧ maximumOrdinal < value))
    (.refused "revision ordinal exceeds signed 64-bit range")

/-- The identity and the revision suffix of a text that is no absolute URI. -/
def cut (input : Text) : Except InputError (Text × Option Text) :=
  match input with
  | 91 :: rest =>
    match rest.dropWhile (· ≠ closeBracket) with
    | _ :: 64 :: suffix =>
      if isHttp (rest.takeWhile (· ≠ closeBracket)) then
        .ok (rest.takeWhile (· ≠ closeBracket), some suffix)
      else .error (.refused "brackets require an absolute HTTP URL")
    | _ => .error (.refused "bracketed absolute Reference requires a revision suffix")
  | _ =>
    match input.dropWhile (· ≠ atSign) with
    | [] => .ok (input, none)
    | _ :: suffix => .ok (input.takeWhile (· ≠ atSign), some suffix)

def readSelection (suffix : Text) : Except InputError RevisionSelection :=
  if suffix = ascii "current".toList then .ok .current
  else if isOrdinal suffix then do
    admitOrdinal suffix
    return .ordinal suffix
  else
    match suffix with
    | 61 :: token => do
      readText token "revision token"
      return .exact token
    | _ => .error (.refused "revision selector requires N, current or an exact =TOKEN")

def parseCanonicalReferenceSelection (input scope : Text) :
    Except InputError ReferenceSelection := do
  check (parseCanonicalScope platform.parse scope = true) .invalid
  readText input "Reference"
  if isHttp input then return ⟨← absolute platform input scope, none⟩
  else if isBatch input then
    .error (.refused "batch reference is not legal in this position or mode")
  else if hasScheme input then
    .error (.refused "opaque URI is not admitted in this Reference position")
  else do
    let (identity, suffix) ← cut input
    readText identity "Reference identity"
    let uri ← absolute platform identity scope
    match suffix with
    | none => return ⟨uri, none⟩
    | some suffix => return ⟨uri, some (← readSelection suffix)⟩

def parseCanonicalReference (policy : Policy) (input scope : Text) :
    Except InputError Reference := do
  check (parseCanonicalScope platform.parse scope = true) .invalid
  readText input "Reference"
  if isBatch input then do
    let name := input.drop batchText.length
    check (policy.allowBatchReference = true ∧ isName name = true)
      (.refused "batch reference is not legal in this position or mode")
    return ⟨atSign :: name, none⟩
  else if isHttp input then return ⟨← absolute platform input scope, none⟩
  else if hasScheme input then do
    check (policy.allowOpaqueUri = true ∧ platform.isJsonSchemaUri input = true)
      (.refused "opaque URI is not admitted in this Reference position")
    return ⟨input, none⟩
  else do
    let parsed ← parseCanonicalReferenceSelection platform input scope
    match parsed.selection with
    | none => return ⟨parsed.uri, none⟩
    | some selection => do
      check (policy.mutationSubject = false)
        (.refused "mutation subjects must be unpinned; use --if-revision")
      match selection with
      | .current => do
        check (policy.currentRead = true)
          (.refused "current selection is not an authored durable pin")
        return ⟨parsed.uri, none⟩
      | .ordinal _ =>
        .error (.unsupported "revision ordinals require an authoritative mapping")
      | .exact token => return ⟨parsed.uri, some token⟩

end Reading

end Bdp.References
