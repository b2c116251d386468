import Bdp.Retained.PatchReference

/-!
# Object edits from the command line

A merge object becomes one addition for each of its names. Set and unset keys become additions, each
unset followed by its removal, so that an unset never fails. Keys are literal names of the top level
and are escaped into JSON pointers; what an edit reads counts against a bound on the input bytes.
-/

namespace Bdp.CommandInput

open Retained (Json JsonObject ObjectEdit ObjectChange)

inductive Operation
  | create
  | update
  | other
  deriving DecidableEq, Repr

/-- The options of one plane, properties or metadata, as they were typed. -/
structure PlaneOptions where
  merge : Option String
  replace : Option String
  strict : Option String
  sets : List String
  unsets : List String

/-- What a plane contributes to the request body. -/
inductive PlaneBody
  | value (record : JsonObject)
  | change (edits : ObjectChange)
  | patch (edits : Json)

/-- Reading of JSON: inline text, an object or patch from text, file or standard input, and the
check of a patch. What is read is charged to the remaining bytes. -/
structure Reader where
  json : String → Except String Json
  read : String → ℤ → Except String (Json × ℤ)
  patch : Json → Except String Json

section Keys

/-- `value.replace(/x/g, text)` for a letter. -/
def replaceLetter (letter : Char) (text value : List Char) : List Char :=
  value.flatMap fun other ↦ if other = letter then text else [other]

def pointer (key : String) : String :=
  String.ofList ('/' :: replaceLetter '/' ['~', '1'] (replaceLetter '~' ['~', '0'] key.toList))

/-- The code units of a text, by which `sort` compares. -/
def codeUnits (text : String) : List ℕ :=
  text.toList.flatMap fun letter ↦
    if letter.toNat < 0x10000 then [letter.toNat]
    else [0xd800 + (letter.toNat - 0x10000) / 0x400, 0xdc00 + (letter.toNat - 0x10000) % 0x400]

def SortsBefore (left right : String) : Prop := codeUnits left ≤ codeUnits right

instance : DecidableRel SortsBefore := fun left right ↦
  inferInstanceAs (Decidable (codeUnits left ≤ codeUnits right))

end Keys

section Values

/-- `[eE][+-]?[0-9]+`, or nothing. -/
def isExponent : List Char → Bool
  | [] => true
  | mark :: rest =>
    let digits := match rest with
      | '+' :: digits => digits
      | '-' :: digits => digits
      | digits => digits
    (mark = 'e' || mark = 'E') && !digits.isEmpty && digits.all Char.isDigit

/-- `-?(?:0|[1-9][0-9]*)(?:\\.[0-9]+)?(?:[eE][+-]?[0-9]+)?`. -/
def isNumberText (text : List Char) : Bool :=
  let unsigned := match text with
    | '-' :: unsigned => unsigned
    | unsigned => unsigned
  let whole := unsigned.takeWhile Char.isDigit
  let fraction := match unsigned.dropWhile Char.isDigit with
    | '.' :: rest => some rest
    | _ => none
  !whole.isEmpty && (whole = ['0'] || whole.head? ≠ some '0') &&
    match fraction with
    | some rest =>
      !(rest.takeWhile Char.isDigit).isEmpty && isExponent (rest.dropWhile Char.isDigit)
    | none => isExponent (unsigned.dropWhile Char.isDigit)

/-- Null, booleans and numbers are read as JSON; other text is a string. -/
def keyedValue (json : String → Except String Json) (value : String) : Except String Json :=
  if value = "null" ∨ value = "true" ∨ value = "false" ∨ isNumberText value.toList then json value
  else .ok (.string value)

end Values

section Compilation

def asObject (plane : String) : Json → Except String JsonObject
  | .object members => .ok members
  | _ => .error (plane ++ " must be a JSON object")

/-- One addition for each member, in the order of the sorted names. -/
def mergeEdits (record : JsonObject) : ObjectChange :=
  ((record.map Prod.fst).insertionSort SortsBefore).filterMap fun key ↦
    (record.lookup key).map fun value ↦ .add (pointer key) value

def charge (bytes : ℕ) (remaining : ℤ) : Except String ℤ := do
  check (0 ≤ remaining - bytes) "input byte bound exceeded"
  return remaining - bytes

/-- A key and its value, split at the first equals sign. -/
def readSet (json : String → Except String Json) (entry : String) :
    Except String (String × Json) := do
  let letters := entry.toList
  check ('=' ∈ letters) "set input requires KEY=VALUE"
  let value ← keyedValue json (String.ofList ((letters.dropWhile (· ≠ '=')).drop 1))
  return (String.ofList (letters.takeWhile (· ≠ '=')), value)

/-- `Map.set`: in place for a key that is there, else at the end. -/
def setEntry (values : List (String × Json)) (entry : String × Json) : List (String × Json) :=
  if values.any fun other ↦ other.1 = entry.1 then
    values.map fun other ↦ if other.1 = entry.1 then entry else other
  else values ++ [entry]

def collectSet (json : String → Except String Json) (collected : List (String × Json) × ℤ)
    (entry : String) : Except String (List (String × Json) × ℤ) := do
  let remaining ← charge entry.utf8ByteSize collected.2
  let assignment ← readSet json entry
  return (setEntry collected.1 assignment, remaining)

/-- An addition that the removal undoes whether or not the key was there. -/
def unsetEdits (key : String) : ObjectChange := [.add (pointer key) .null, .remove (pointer key)]

def collectUnset (collected : ObjectChange × ℤ) (key : String) :
    Except String (ObjectChange × ℤ) := do
  let remaining ← charge key.utf8ByteSize collected.2
  return (collected.1 ++ unsetEdits key, remaining)

def keyedEdits (json : String → Except String Json) (sets unsets : List String) (remaining : ℤ) :
    Except String (ObjectChange × ℤ) := do
  let (values, remaining) ← sets.foldlM (collectSet json) ([], remaining)
  let additions := values.map fun entry ↦ ObjectEdit.add (pointer entry.1) entry.2
  unsets.eraseDups.foldlM collectUnset (additions, remaining)

/-- The contribution of one plane, and the bytes that remain. -/
def compilePlane (reader : Reader) (operation : Operation) (plane : String) (options : PlaneOptions)
    (remaining : ℤ) : Except String (Option PlaneBody × ℤ) := do
  let keyed := !options.sets.isEmpty || !options.unsets.isEmpty
  let modes := [options.merge.isSome, options.replace.isSome, options.strict.isSome, keyed]
  check (modes.count true ≤ 1) ("conflicting " ++ plane ++ " edit modes")
  check (operation ≠ .other ∨ modes.count true = 0) "object edits require create/update"
  check (operation ≠ .create ∨ (options.replace.isNone ∧ options.strict.isNone ∧ keyed = false))
    "creation admits object initialization only"
  match options.merge, options.replace, options.strict with
  | some text, _, _ => do
    let (value, remaining) ← reader.read text remaining
    let record ← asObject plane value
    if operation = .create then return (some (.value record), remaining)
    else return (some (.change (mergeEdits record)), remaining)
  | none, some text, _ => do
    let (value, remaining) ← reader.read text remaining
    let record ← asObject plane value
    return (some (.value record), remaining)
  | none, none, some text => do
    let (value, remaining) ← reader.read text remaining
    let edits ← reader.patch value
    return (some (.patch edits), remaining)
  | none, none, none =>
    if keyed then do
      let (edits, remaining) ← keyedEdits reader.json options.sets options.unsets remaining
      return (some (.change edits), remaining)
    else return (none, remaining)

end Compilation

end Bdp.CommandInput
