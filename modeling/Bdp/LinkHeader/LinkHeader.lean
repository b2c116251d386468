import Bdp.Library.CodeUnits
import Bdp.Library.Scanner

/-!
# Link header fields

The syntax of a Link field as the client reads it: the field is cut at the commas outside quoted
strings and angle brackets, each entry at the semicolons outside quoted strings, and every parameter
is decoded on its own. Order and duplicates are kept.
-/

namespace Bdp.LinkHeader

open CodeUnits

def comma : ℕ := 44
def semicolon : ℕ := 59
def equalsSign : ℕ := 61
def lessThan : ℕ := 60
def greaterThan : ℕ := 62

structure LinkHeaderParameter where
  name : Text
  value : Text
  quoted : Bool
  deriving DecidableEq, Repr

structure LinkHeaderValue where
  target : Text
  parameters : List LinkHeaderParameter
  deriving DecidableEq, Repr

section Units

/-- White space and line terminators, as `\\s` matches and `trim` removes them. -/
def isSpace (unit : ℕ) : Bool :=
  unit ∈ [9, 10, 11, 12, 13, 32, 0xa0, 0x1680, 0x2028, 0x2029, 0x202f, 0x205f, 0x3000, 0xfeff] ||
    decide (0x2000 ≤ unit ∧ unit ≤ 0x200a)

def trim (text : Text) : Text := ((text.dropWhile isSpace).reverse.dropWhile isSpace).reverse

/-- The small letter of a capital of ASCII. -/
def lowerUnit (unit : ℕ) : ℕ := if 65 ≤ unit ∧ unit ≤ 90 then unit + 32 else unit

/-- A full case mapping of texts; on ASCII it is the familiar one. -/
structure CaseMapping where
  toLowerCase : Text → Text
  toLowerCase_ascii : ∀ text : Text, (∀ unit ∈ text, unit < 128) →
    toLowerCase text = text.map lowerUnit

end Units

section Splitting

/-- An odd number of backslashes stands right before the index. -/
def isEscaped (value : Text) (index : ℕ) : Bool :=
  ((value.take index).reverse.takeWhile (· = backslash)).length % 2 = 1

structure Splitting where
  values : List Text
  start : ℕ
  quoted : Bool
  angle : Bool

def splitStep (value : Text) (delimiter : ℕ) (trackAngles : Bool) (splitting : Splitting)
    (entry : ℕ × ℕ) : Splitting :=
  let (character, index) := entry
  if character = quotationMark ∧ isEscaped value index = false then
    { splitting with quoted := !splitting.quoted }
  else if trackAngles ∧ splitting.quoted = false ∧ character = lessThan then
    { splitting with angle := true }
  else if trackAngles ∧ splitting.quoted = false ∧ character = greaterThan then
    { splitting with angle := false }
  else if splitting.quoted = false ∧ splitting.angle = false ∧ character = delimiter then
    { splitting with
      values := splitting.values ++ [(value.take index).drop splitting.start]
      start := index + 1 }
  else splitting

def splitOutsideQuotedString (value : Text) (delimiter : ℕ) (trackAngles : Bool) : List Text :=
  let splitting := value.zipIdx.foldl (splitStep value delimiter trackAngles) ⟨[], 0, false, false⟩
  splitting.values ++ [value.drop splitting.start]

end Splitting

section Parsing

/-- The text between the quotation marks with its backslashes taken away. -/
def decodeQuoted : Text → Text
  | [] => []
  | [character] => [character]
  | character :: next :: rest =>
    if character = backslash then next :: decodeQuoted rest
    else character :: decodeQuoted (next :: rest)

def parseParameterValue (value : Text) : Option (Text × Bool) :=
  if value.head? ≠ some quotationMark then
    if value = [] ∨ ∃ unit ∈ value, isSpace unit = true ∨ unit = quotationMark then none
    else some (value, false)
  else if value.getLast? ≠ some quotationMark then none
  else some (decodeQuoted (value.drop 1).dropLast, true)

def parseParameter (casing : CaseMapping) (part : Text) : Option LinkHeaderParameter :=
  match part.findIdx? (· = equalsSign) with
  | none => none
  | some separator =>
    let name := casing.toLowerCase (trim (part.take separator))
    if name = [] ∨ ∃ unit ∈ name, isSpace unit = true then none
    else (parseParameterValue (trim (part.drop (separator + 1)))).map fun (value, quoted) ↦
      ⟨name, value, quoted⟩

/-- The match of `^\\s*<([^>]*)>`: its group, and what comes after it. -/
def matchTarget (fieldValue : Text) : Option (Text × Text) :=
  match fieldValue.dropWhile isSpace with
  | [] => none
  | opening :: rest =>
    if opening ≠ lessThan then none
    else match rest.dropWhile (· ≠ greaterThan) with
      | [] => none
      | _ :: parameters => some (rest.takeWhile (· ≠ greaterThan), parameters)

def parseLink (casing : CaseMapping) (fieldValue : Text) : Option LinkHeaderValue :=
  (matchTarget fieldValue).map fun (target, parameters) ↦
    ⟨target,
      (splitOutsideQuotedString parameters semicolon false).filterMap (parseParameter casing)⟩

def parseLinkHeader (casing : CaseMapping) (value : Text) : List LinkHeaderValue :=
  (splitOutsideQuotedString value comma true).filterMap (parseLink casing)

end Parsing

end Bdp.LinkHeader
