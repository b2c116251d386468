import Mathlib

/-!
# Tokens of a selector

The tokenizer of the selector grammar: quoted strings, singular paths, numbers, words and operators.
The loops run with fuel. A text that is cut into tokens by itself is cut into the same tokens before
a closing delimiter.
-/

namespace Bdp.Selector

inductive Segment where
  | name (value : List Char)
  | index (value : ℤ)
  deriving DecidableEq

inductive Literal where
  | string (value : List Char)
  | number (value : ℚ)
  | boolean (value : Bool)
  | null
  deriving DecidableEq

inductive Comparison where
  | equal
  | notEqual
  | less
  | lessEqual
  | greater
  | greaterEqual
  deriving DecidableEq

inductive Operator where
  | compare (comparison : Comparison)
  | and
  | or
  | not
  deriving DecidableEq

inductive Token where
  | operator (operator : Operator)
  | path (segments : List Segment)
  | literal (value : Literal)
  | dollar
  | openBracket
  | question
  | closeBracket
  | openParen
  | closeParen
  deriving DecidableEq

section Letters

def isWhitespace (letter : Char) : Bool := [' ', '\t', '\n', '\r'].contains letter

def isNameFirst (letter : Char) : Bool :=
  letter.isAlpha || letter == '_' || decide (0x80 ≤ letter.toNat)

def isNameCharacter (letter : Char) : Bool := letter.isDigit || isNameFirst letter

def isQuote (letter : Char) : Bool := letter == '"' || letter == Char.ofNat 39

def hexValue (digit : Char) : Option ℕ :=
  if digit.isDigit then some (digit.toNat - '0'.toNat)
  else if 'a' ≤ digit ∧ digit ≤ 'f' then some (10 + digit.toNat - 'a'.toNat)
  else if 'A' ≤ digit ∧ digit ≤ 'F' then some (10 + digit.toNat - 'A'.toNat)
  else none

end Letters

section Strings

/-- `uXXXX`, with what follows. -/
def scanUnicodeEscape : List Char → Option (ℕ × List Char)
  | 'u' :: a :: b :: c :: d :: rest => do
    let a ← hexValue a
    let b ← hexValue b
    let c ← hexValue c
    let d ← hexValue d
    return (4096 * a + 256 * b + 16 * c + d, rest)
  | _ => none

def simpleEscape (letter : Char) : Option Char :=
  if letter = 'b' then some (Char.ofNat 8)
  else if letter = 'f' then some (Char.ofNat 12)
  else if letter = 'n' then some '\n'
  else if letter = 'r' then some '\r'
  else if letter = 't' then some '\t'
  else if letter = '/' then some '/'
  else if letter = '\\' then some '\\'
  else none

/-- The letter of an escaped unit; a high surrogate needs an escaped low one behind it. -/
def letterOfUnit (first : ℕ) (after : List Char) : Option (Char × List Char) :=
  if 0xd800 ≤ first ∧ first ≤ 0xdbff then
    match after with
    | '\\' :: low => do
      let (second, after) ← scanUnicodeEscape low
      guard (0xdc00 ≤ second ∧ second ≤ 0xdfff)
      return (Char.ofNat (0x10000 + (first - 0xd800) * 1024 + (second - 0xdc00)), after)
    | _ => none
  else if 0xdc00 ≤ first ∧ first ≤ 0xdfff then none
  else some (Char.ofNat first, after)

/-- An escape behind its backslash: the letter that it denotes, with what follows. -/
def scanEscape (quote : Char) (text : List Char) : Option (Char × List Char) :=
  match text with
  | [] => none
  | escaped :: rest =>
    match simpleEscape escaped with
    | some value => some (value, rest)
    | none =>
      if escaped = quote then some (quote, rest)
      else do
        let (first, after) ← scanUnicodeEscape text
        letterOfUnit first after

/-- The value of a string behind its opening quote, with what follows the closing one. -/
def scanQuotedString (quote : Char) : ℕ → List Char → Option (List Char × List Char)
  | 0, _ => none
  | _ + 1, [] => none
  | fuel + 1, letter :: rest =>
    if letter = quote then some ([], rest)
    else if letter.toNat < 0x20 then none
    else if letter ≠ '\\' then do
      let (value, after) ← scanQuotedString quote fuel rest
      return (letter :: value, after)
    else do
      let (escaped, after) ← scanEscape quote rest
      let (value, after) ← scanQuotedString quote fuel after
      return (escaped :: value, after)

end Strings

section Paths

def scanName (text : List Char) : List Char × List Char :=
  (text.takeWhile isNameCharacter, text.dropWhile isNameCharacter)

def decimal (digits : List Char) : ℕ :=
  digits.foldl (fun value digit ↦ 10 * value + (digit.toNat - '0'.toNat)) 0

/-- `0|-?[1-9][0-9]*` as a safe integer. -/
def indexValue (negative : Bool) (digits : List Char) : Option ℤ :=
  if (digits.head?.any (· ≠ '0') ∨ digits = ['0'] ∧ negative = false) ∧
      decimal digits ≤ 9007199254740991 then
    some (if negative then -(decimal digits : ℤ) else decimal digits)
  else none

def scanIndexDigits (negative : Bool) (digits : List Char) : Option (Segment × List Char) :=
  match digits.dropWhile Char.isDigit with
  | ']' :: rest => do
    let value ← indexValue negative (digits.takeWhile Char.isDigit)
    return (.index value, rest)
  | _ => none

def scanIndex (text : List Char) : Option (Segment × List Char) :=
  match text with
  | '-' :: digits => scanIndexDigits true digits
  | _ => scanIndexDigits false text

/-- A name or an index in brackets, behind the opening one. -/
def scanSingularBracketSegment (fuel : ℕ) (text : List Char) : Option (Segment × List Char) :=
  match text with
  | [] => none
  | letter :: rest =>
    if isQuote letter then do
      let (value, after) ← scanQuotedString letter fuel rest
      match after with
      | ']' :: after => return (.name value, after)
      | _ => none
    else if letter = '-' ∨ letter.isDigit then scanIndex text
    else none

/-- The segments of a path behind the at sign. -/
def scanPath : ℕ → List Char → Option (List Segment × List Char)
  | 0, _ => none
  | fuel + 1, text =>
    match text.dropWhile isWhitespace with
    | '.' :: rest =>
      if rest.head?.any isNameFirst then do
        let (segments, after) ← scanPath fuel (scanName rest).2
        return (.name (scanName rest).1 :: segments, after)
      else none
    | '[' :: rest => do
      let (segment, after) ← scanSingularBracketSegment fuel rest
      let (segments, after) ← scanPath fuel after
      return (segment :: segments, after)
    | _ => some ([], text)

end Paths

section Words

def scanWord (text : List Char) : Option (Token × List Char) :=
  if (scanName text).2.head? = some '(' then none
  else if (scanName text).1 = "true".toList then
    some (.literal (.boolean true), (scanName text).2)
  else if (scanName text).1 = "false".toList then
    some (.literal (.boolean false), (scanName text).2)
  else if (scanName text).1 = "null".toList then some (.literal .null, (scanName text).2)
  else none

/-- What follows `0|[1-9][0-9]*`. -/
def afterInteger : List Char → Option (List Char)
  | [] => none
  | digit :: rest =>
    if digit = '0' then some rest
    else if digit.isDigit then some (rest.dropWhile Char.isDigit)
    else none

/-- What follows `(?:\.[0-9]+)?`. -/
def afterFraction (text : List Char) : List Char :=
  match text with
  | '.' :: rest => if rest.head?.any Char.isDigit then rest.dropWhile Char.isDigit else text
  | _ => text

/-- What follows `(?:[eE][+-]?[0-9]+)?`. -/
def afterExponent (text : List Char) : List Char :=
  match text with
  | [] => text
  | letter :: rest =>
    let digits := if rest.head? = some '+' ∨ rest.head? = some '-' then rest.drop 1 else rest
    if (letter = 'e' ∨ letter = 'E') ∧ digits.head?.any Char.isDigit then
      digits.dropWhile Char.isDigit
    else text

/-- What follows a number; the number is not followed by a name or a point. -/
def afterNumber (text : List Char) : Option (List Char) := do
  let rest ← afterInteger (if text.head? = some '-' then text.drop 1 else text)
  let rest := afterExponent (afterFraction rest)
  guard (rest.head?.any isNameCharacter = false ∧ rest.head? ≠ some '.')
  return rest

/-- A number, read by `Number`; none if it is not finite. -/
def scanNumber (number : List Char → Option ℚ) (text : List Char) :
    Option (Token × List Char) := do
  let rest ← afterNumber text
  let value ← number (text.take (text.length - rest.length))
  return (.literal (.number value), rest)

def scanOperator (text : List Char) : Option (Token × List Char) :=
  match text with
  | '=' :: '=' :: rest => some (.operator (.compare .equal), rest)
  | '!' :: '=' :: rest => some (.operator (.compare .notEqual), rest)
  | '<' :: '=' :: rest => some (.operator (.compare .lessEqual), rest)
  | '>' :: '=' :: rest => some (.operator (.compare .greaterEqual), rest)
  | '&' :: '&' :: rest => some (.operator .and, rest)
  | '|' :: '|' :: rest => some (.operator .or, rest)
  | '!' :: rest => some (.operator .not, rest)
  | '<' :: rest => some (.operator (.compare .less), rest)
  | '>' :: rest => some (.operator (.compare .greater), rest)
  | '$' :: rest => some (.dollar, rest)
  | '[' :: rest => some (.openBracket, rest)
  | ']' :: rest => some (.closeBracket, rest)
  | '?' :: rest => some (.question, rest)
  | '(' :: rest => some (.openParen, rest)
  | ')' :: rest => some (.closeParen, rest)
  | _ => none

end Words

section Tokenizing

variable (number : List Char → Option ℚ)

def scanToken (fuel : ℕ) (text : List Char) : Option (Token × List Char) :=
  match text with
  | [] => none
  | letter :: rest =>
    if isQuote letter then do
      let (value, after) ← scanQuotedString letter fuel rest
      return (.literal (.string value), after)
    else if letter = '@' then do
      let (segments, after) ← scanPath fuel rest
      return (.path segments, after)
    else if letter = '-' ∨ letter.isDigit then scanNumber number text
    else if isNameFirst letter then scanWord text
    else scanOperator text

def tokenize : ℕ → List Char → Option (List Token)
  | 0, _ => none
  | _ + 1, [] => some []
  | fuel + 1, letter :: rest =>
    if isWhitespace letter then tokenize fuel rest
    else do
      let (token, after) ← scanToken number fuel (letter :: rest)
      let tokens ← tokenize fuel after
      return token :: tokens

end Tokenizing

end Bdp.Selector
