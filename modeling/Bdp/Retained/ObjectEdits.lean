import Mathlib
import Bdp.Library.Checked
import Bdp.Retained.Contract

/-!
# Object edits and JSON equality

Literal add, replace and remove edits of a JSON object, and the equality that decides whether an
update changes a record. Equality ignores the order of object members; edits keep the enumeration
order of a JavaScript object, where array-index names come first.
-/

namespace Bdp.Retained

section Equality

variable {N : Type} [DecidableEq N]

mutual

def jsonValueEqual : JsonValue N → JsonValue N → Bool
  | .null, .null => true
  | .bool x, .bool y => x == y
  | .number x, .number y => decide (x = y)
  | .string x, .string y => x == y
  | .array xs, .array ys => itemsEqual xs ys
  | .object xs, .object ys => xs.length == ys.length && membersEqual xs ys
  | _, _ => false

def itemsEqual : List (JsonValue N) → List (JsonValue N) → Bool
  | [], [] => true
  | x :: xs, y :: ys => jsonValueEqual x y && itemsEqual xs ys
  | _, _ => false

/-- Every member of the first object is an own member of the second with an equal value. -/
def membersEqual : List (String × JsonValue N) → List (String × JsonValue N) → Bool
  | [], _ => true
  | (name, x) :: xs, ys =>
    (match ys.lookup name with
      | some y => jsonValueEqual x y
      | none => false) && membersEqual xs ys

end

end Equality

inductive ObjectEdit where
  | add (path : String) (value : Json)
  | replace (path : String) (value : Json)
  | remove (path : String)
  deriving DecidableEq

abbrev ObjectChange := List ObjectEdit

namespace ObjectEdit

def path : ObjectEdit → String
  | .add path _ => path
  | .replace path _ => path
  | .remove path => path

def isAdd : ObjectEdit → Bool
  | .add _ _ => true
  | _ => false

/-- The value an edit writes, none for a removal. -/
def value : ObjectEdit → Option Json
  | .add _ value => some value
  | .replace _ value => some value
  | .remove _ => none

/-- `token.replace(/~d/g, letter)` for a digit `d`. -/
def replaceEscape (digit letter : Char) : List Char → List Char
  | [] => []
  | [last] => [last]
  | first :: second :: rest =>
    if first = '~' ∧ second = digit then letter :: replaceEscape digit letter rest
    else first :: replaceEscape digit letter (second :: rest)

def unescapeToken (token : List Char) : List Char :=
  replaceEscape '0' '~' (replaceEscape '1' '/' token)

/-- Reference tokens of a JSON pointer, each unescaped once. -/
def tokens (edit : ObjectEdit) : List String :=
  if edit.path = "" then [] else
    ((edit.path.toList.drop 1).splitOn '/').map fun token ↦ String.ofList (unescapeToken token)

/-- Number of reference tokens before unescaping. -/
def pathDepth (edit : ObjectEdit) : ℕ :=
  if edit.path = "" then 0 else (edit.path.splitOn "/").length - 1

end ObjectEdit

structure EditLimits where
  operations : ℕ
  pathBytes : ℕ
  pathDepth : ℕ

def EDIT_LIMITS : EditLimits := { operations := 100, pathBytes := 2048, pathDepth := 64 }

def exceedsEditLimits (changes : List ObjectChange) : Bool :=
  decide (EDIT_LIMITS.operations < (changes.map List.length).sum) ||
    changes.any fun change ↦ change.any fun edit ↦
      decide (EDIT_LIMITS.pathBytes < edit.path.utf8ByteSize) ||
        decide (EDIT_LIMITS.pathDepth < edit.pathDepth)

structure ObjectEditFailure where
  message : String
  pointer : String
  deriving DecidableEq, Repr

def arrayIndex (token : String) : Option ℕ :=
  let digits := token.toList
  if digits = [] ∨ digits.any (fun digit ↦ !digit.isDigit) ∨
      (digits.head? = some '0' ∧ digits.length ≠ 1) then none
  else some (digits.foldl (fun total digit ↦ 10 * total + (digit.toNat - '0'.toNat)) 0)

/-- Names below 2^32 - 1 enumerate as array indices, ascending and before every other name. -/
def enumerationIndex (name : String) : Option ℕ :=
  (arrayIndex name).filter fun index ↦ index < 2 ^ 32 - 1

/-- Whether a new name enumerates before an existing one. -/
def enumeratesBefore (name other : String) : Bool :=
  match enumerationIndex name, enumerationIndex other with
  | some index, some index' => decide (index < index')
  | some _, none => true
  | none, _ => false

/-- Define an own property: in place when it exists, else at its enumeration position. -/
def defineMember (members : JsonObject) (name : String) (value : Json) : JsonObject :=
  if members.any fun entry ↦ entry.1 = name then
    members.map fun entry ↦ if entry.1 = name then (name, value) else entry
  else
    members.takeWhile (fun entry ↦ !enumeratesBefore name entry.1) ++ (name, value) ::
      members.dropWhile (fun entry ↦ !enumeratesBefore name entry.1)

def deleteMember (members : JsonObject) (name : String) : JsonObject :=
  members.filter fun entry ↦ entry.1 ≠ name

/-- The edit of one container at its last reference token. -/
def editMember (edit : ObjectEdit) (name : String) : Json → Except String Json
  | .array items => do
    let index ← require
      (if name = "-" ∧ edit.isAdd then some items.length else arrayIndex name)
      "patch array index does not exist"
    check (index < 2 ^ 53 ∧ index ≤ items.length ∧ (edit.isAdd ∨ index ≠ items.length))
      "patch array index does not exist"
    match edit with
    | .add _ value => pure (.array (items.insertIdx index value))
    | .replace _ value => pure (.array (items.set index value))
    | .remove _ => pure (.array (items.eraseIdx index))
  | .object members => do
    check (edit.isAdd ∨ (members.lookup name).isSome) "patch target does not exist"
    match edit with
    | .remove _ => pure (.object (deleteMember members name))
    | .add _ value => pure (.object (defineMember members name value))
    | .replace _ value => pure (.object (defineMember members name value))
  | _ => .error "patch target does not exist"

/-- The child an edit descends into, with the way to put its replacement back. -/
def descend (token : String) : Json → Option (Json × (Json → Json))
  | .array items => do
    let index ← arrayIndex token
    let child ← items[index]?
    pure (child, fun replacement ↦ .array (items.set index replacement))
  | .object members => do
    let child ← members.lookup token
    pure (child, fun replacement ↦ .object (defineMember members token replacement))
  | _ => none

/-- Follow the reference tokens to the parent of the last one and edit it there. -/
def editAt (edit : ObjectEdit) : List String → Json → Except String Json
  | [], _ => .error "patch target does not exist"
  | [name], parent => editMember edit name parent
  | token :: tokens, parent => do
    let (child, rebuild) ← require (descend token parent) "patch parent does not exist"
    let replacement ← editAt edit tokens child
    pure (rebuild replacement)

/-- One edit of the whole document; the root may be removed and added again. -/
def applyEdit (document : Option Json) (edit : ObjectEdit) :
    Except ObjectEditFailure (Option Json) :=
  let invalid {α : Type} (message : String) : Except ObjectEditFailure α :=
    .error { message, pointer := edit.path }
  match edit.tokens, document with
  | [], none => if edit.isAdd then .ok edit.value else invalid "patch target does not exist"
  | [], some _ => .ok edit.value
  | [_], none => invalid "patch target does not exist"
  | _ :: _ :: _, none => invalid "patch parent does not exist"
  | tokens, some root =>
    match editAt edit tokens root with
    | .ok edited => .ok (some edited)
    | .error message => invalid message

def applyObjectChange (before : JsonObject) (changes : ObjectChange) :
    Except ObjectEditFailure JsonObject := do
  match ← changes.foldlM applyEdit (some (.object before)) with
  | some (.object members) => .ok members
  | _ => .error { message := "resulting document must be an object", pointer := "" }

end Bdp.Retained
