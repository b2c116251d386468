import Mathlib.Data.Rat.Lemmas
import Bdp.Library.Json

/-!
# Compact JSON text

The compact text of a JSON tree over the rationals, with the escapes of an ordinary serializer, and
the reader that takes it back. Integers are written as decimals; a proper fraction is written as
its numerator and denominator.
-/

namespace Bdp.JsonText

section Strings

/-- The letter of the short escape of a control character. -/
def controlLetter (code : ℕ) : Option Char :=
  if code = 8 then some 'b'
  else if code = 9 then some 't'
  else if code = 10 then some 'n'
  else if code = 12 then some 'f'
  else if code = 13 then some 'r'
  else none

/-- The character that the letter of a short escape stands for. -/
def unescape (letter : Char) : Option Char :=
  if letter = '"' then some '"'
  else if letter = '\\' then some '\\'
  else if letter = 'b' then some (Char.ofNat 8)
  else if letter = 't' then some '\t'
  else if letter = 'n' then some '\n'
  else if letter = 'f' then some (Char.ofNat 12)
  else if letter = 'r' then some '\r'
  else none

def hexDigit (value : ℕ) : Char := Nat.digitChar value

def hexValue (digit : Char) : ℕ :=
  if digit.isDigit then digit.toNat - '0'.toNat else digit.toNat - 'a'.toNat + 10

/-- A character of a string: escaped when the grammar asks for it. -/
def escape (letter : Char) : List Char :=
  if letter.toNat < 32 then
    match controlLetter letter.toNat with
    | some short => ['\\', short]
    | none => ['\\', 'u', '0', '0', hexDigit (letter.toNat / 16), hexDigit (letter.toNat % 16)]
  else if letter.toNat = 34 ∨ letter.toNat = 92 then ['\\', letter]
  else [letter]

def printString (text : String) : List Char :=
  '"' :: (text.toList.flatMap escape ++ ['"'])

/-- The characters of a string after its opening quote, and what follows the closing one. -/
def readString : List Char → Option (List Char × List Char)
  | [] => none
  | '"' :: rest => some ([], rest)
  | '\\' :: 'u' :: '0' :: '0' :: high :: low :: rest =>
    (readString rest).map fun read ↦
      (Char.ofNat (16 * hexValue high + hexValue low) :: read.1, read.2)
  | '\\' :: letter :: rest =>
    match unescape letter with
    | some character => (readString rest).map fun read ↦ (character :: read.1, read.2)
    | none => none
  | letter :: rest => (readString rest).map fun read ↦ (letter :: read.1, read.2)

end Strings

section Numbers

/-- A rational as a decimal integer, followed by its denominator when it is a proper fraction. -/
def printNumber (value : ℚ) : List Char :=
  (if value.num < 0 then ['-'] else []) ++ Nat.toDigits 10 value.num.natAbs ++
    if value.den = 1 then [] else '/' :: Nat.toDigits 10 value.den

/-- The leading decimal digits as a number, and what follows them. -/
def readNat (text : List Char) : ℕ × List Char :=
  (Nat.ofDigitChars 10 (text.takeWhile Char.isDigit) 0, text.dropWhile Char.isDigit)

def readFraction (text : List Char) : ℚ × List Char :=
  match readNat text with
  | (numerator, '/' :: rest) => ((numerator : ℚ) / ((readNat rest).1 : ℚ), (readNat rest).2)
  | (numerator, rest) => (numerator, rest)

def readNumber (text : List Char) : ℚ × List Char :=
  match text with
  | '-' :: rest => (-(readFraction rest).1, (readFraction rest).2)
  | _ => readFraction text

end Numbers

section Values

mutual

/-- The compact text of a tree. -/
def print : JsonValue ℚ → List Char
  | .null => "null".toList
  | .bool true => "true".toList
  | .bool false => "false".toList
  | .number value => printNumber value
  | .string value => printString value
  | .array [] => "[]".toList
  | .array (item :: items) => '[' :: (print item ++ printItems items)
  | .object [] => "{}".toList
  | .object ((name, value) :: members) =>
    '{' :: (printString name ++ ':' :: (print value ++ printMembers members))

/-- The items after the first, up to the closing bracket. -/
def printItems : List (JsonValue ℚ) → List Char
  | [] => [']']
  | item :: items => ',' :: (print item ++ printItems items)

/-- The members after the first, up to the closing brace. -/
def printMembers : List (String × JsonValue ℚ) → List Char
  | [] => ['}']
  | (name, value) :: members =>
    ',' :: (printString name ++ ':' :: (print value ++ printMembers members))

end

/-- What a reader takes from a text, and the text it leaves. -/
abbrev Read (α : Type) := Option (α × List Char)

/-- A quoted name and the colon after it. -/
def readName : List Char → Read String
  | '"' :: rest =>
    match readString rest with
    | some (name, ':' :: rest) => some (String.ofList name, rest)
    | _ => none
  | _ => none

mutual

/-- One tree; the fuel bounds the nesting and the number of items. -/
def read : ℕ → List Char → Read (JsonValue ℚ)
  | 0, _ => none
  | fuel + 1, text =>
    match text with
    | 'n' :: 'u' :: 'l' :: 'l' :: rest => some (.null, rest)
    | 't' :: 'r' :: 'u' :: 'e' :: rest => some (.bool true, rest)
    | 'f' :: 'a' :: 'l' :: 's' :: 'e' :: rest => some (.bool false, rest)
    | '"' :: rest => (readString rest).map fun read ↦ (.string (String.ofList read.1), read.2)
    | '[' :: ']' :: rest => some (.array [], rest)
    | '[' :: rest => (readItems fuel rest).map fun read ↦ (.array read.1, read.2)
    | '{' :: '}' :: rest => some (.object [], rest)
    | '{' :: rest => (readMembers fuel rest).map fun read ↦ (.object read.1, read.2)
    | text => some (.number (readNumber text).1, (readNumber text).2)

/-- Items up to the closing bracket. -/
def readItems : ℕ → List Char → Read (List (JsonValue ℚ))
  | 0, _ => none
  | fuel + 1, text =>
    match read fuel text with
    | some (item, ']' :: rest) => some ([item], rest)
    | some (item, ',' :: rest) => (readItems fuel rest).map fun read ↦ (item :: read.1, read.2)
    | _ => none

/-- Members up to the closing brace. -/
def readMembers : ℕ → List Char → Read (List (String × JsonValue ℚ))
  | 0, _ => none
  | fuel + 1, text =>
    match readName text with
    | none => none
    | some (name, rest) =>
      match read fuel rest with
      | some (value, '}' :: rest) => some ([(name, value)], rest)
      | some (value, ',' :: rest) =>
        (readMembers fuel rest).map fun read ↦ ((name, value) :: read.1, read.2)
      | _ => none

end

end Values

/-- Compact texts as a codec: a text is read to its end. -/
def codec : JsonCodec ℚ where
  stringify value := String.ofList (print value)
  parse text :=
    match read text.toList.length text.toList with
    | some (value, []) => some value
    | _ => none

end Bdp.JsonText
