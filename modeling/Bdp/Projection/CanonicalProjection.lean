import Bdp.Projection.Masks
import Bdp.Retained.PatchReference

/-!
# Projection of properties

The local rendering of a properties object under include and omit masks. Both are lists of JSON
pointers; the included ones count only where they exist. A stack of tasks copies the selected parts:
a task visits one value, and a container is frozen once all tasks of its entries are done.
-/

namespace Bdp.Projection

open Retained (arrayIndex isReferenceToken)

variable {N : Type}

structure CanonicalPropertiesMasks where
  include? : Option (List String)
  omit? : Option (List String)

/-- A properties object that has been admitted: no object in it names a member twice. -/
structure Properties (N : Type) where
  members : List (String × JsonValue N)
  unique : (JsonValue.object members).uniqueNames = true

section Pointers

/-- `/^(?:\\/(?:[^~]|~[01])*)*$/`. -/
def isMaskPointer (value : String) : Bool :=
  match value.toList with
  | [] => true
  | first :: rest => first == '/' && isReferenceToken rest

def pointer (value : String) : Except String (List String) :=
  if isMaskPointer value then
    .ok (if value = "" then [] else
      ((value.toList.drop 1).splitOn '/').map fun part ↦
        String.ofList (Retained.ObjectEdit.unescapeToken part))
  else .error "mask must be an RFC6901 JSON Pointer"

def paths (values : Option (List String)) : Except String (List (List String)) :=
  match values with
  | none => .ok []
  | some values => values.mapM pointer

def includedPaths (values : Option (List String)) : Except String (Option (List (List String))) :=
  match values with
  | none => .ok none
  | some values => (paths (some values)).map some

/-- The paths of both masks; without an include mask everything is included. -/
def decodedMasks (masks : CanonicalPropertiesMasks) :
    Except String (Option (List (List String)) × List (List String)) := do
  let includes ← includedPaths masks.include?
  let omits ← paths masks.omit?
  check (omits.any List.isEmpty = false) "properties root omission is not permitted"
  return (includes, omits)

end Pointers

section Locations

/-- One step to an entry. An array is entered by the decimal text of an index. -/
def child : JsonValue N → String → Option (JsonValue N)
  | .array items, key => (arrayIndex key).bind fun index ↦ items[index]?
  | .object members, key => members.lookup key
  | _, _ => none

def locate (value : JsonValue N) : List String → Option (JsonValue N)
  | [] => some value
  | key :: path => (child value key).bind fun entry ↦ locate entry path

def exists? (value : JsonValue N) (path : List String) : Bool := (locate value path).isSome

/-- `Object.keys`, and the indexes of an array. -/
def keys : JsonValue N → List String
  | .array items => (List.range items.length).map Nat.repr
  | .object members => members.map Prod.fst
  | _ => []

end Locations

section Tasks

/-- Where a projected value is put. -/
inductive Place where
  | result
  | item
  | member (name : String)

/-- A container that is being filled. -/
inductive Container (N : Type) where
  | array (items : List (JsonValue N))
  | object (members : List (String × JsonValue N))

structure Visit (N : Type) where
  original : JsonValue N
  include? : Option MaskNode
  omit? : Option MaskNode
  whole : Bool
  place : Place

/-- A container is put in its place when it is frozen; until then it is kept with its task. -/
inductive Task (N : Type) where
  | visit (visit : Visit N)
  | freeze (projected : Container N) (place : Place)

structure Pending (N : Type) where
  tasks : List (Task N)
  result : Option (JsonValue N)

def Container.put (container : Container N) (place : Place) (value : JsonValue N) : Container N :=
  match container, place with
  | .array items, _ => .array (items ++ [value])
  | .object members, .member name => .object (members ++ [(name, value)])
  | .object members, _ => .object members

def Container.value : Container N → JsonValue N
  | .array items => .array items
  | .object members => .object members

/-- Put a value in the innermost container that is being filled. -/
def putBelow (place : Place) (value : JsonValue N) : List (Task N) → List (Task N)
  | [] => []
  | .visit visit :: tasks => .visit visit :: putBelow place value tasks
  | .freeze projected outer :: tasks => .freeze (projected.put place value) outer :: tasks

def Pending.put (place : Place) (value : JsonValue N) (pending : Pending N) : Pending N :=
  match place with
  | .result => { pending with result := some value }
  | place => { pending with tasks := putBelow place value pending.tasks }

/-- The task for an entry, unless it is not selected or is excluded. -/
def entryTask (visit : Visit N) (place : String → Place) (key : String) : Option (Task N) :=
  let selected := visit.include?.bind fun mask ↦ mask.child key
  let whole := visit.whole || selected.any MaskNode.whole
  let excluded := visit.omit?.bind fun mask ↦ mask.child key
  if (whole = false ∧ selected.isNone) ∨ excluded.any MaskNode.whole then none
  else (child visit.original key).map fun entry ↦
    .visit ⟨entry, selected, excluded, whole, place key⟩

/-- The tasks for the entries of a container; the first one comes to lie on top. -/
def entryTasks (visit : Visit N) (place : String → Place) : List (Task N) :=
  (keys visit.original).filterMap (entryTask visit place)

def turn (task : Task N) (pending : Pending N) : Pending N :=
  match task with
  | .freeze projected place => pending.put place projected.value
  | .visit visit =>
    match visit.original with
    | .array _ =>
      { pending with
        tasks := entryTasks visit (fun _ ↦ .item) ++ .freeze (.array []) visit.place ::
          pending.tasks }
    | .object _ =>
      { pending with
        tasks := entryTasks visit .member ++ .freeze (.object []) visit.place :: pending.tasks }
    | scalar => pending.put visit.place scalar

def drain : ℕ → Pending N → Option (JsonValue N)
  | 0, _ => none
  | turns + 1, ⟨tasks, result⟩ =>
    match tasks with
    | [] => result
    | task :: tasks => drain turns (turn task ⟨tasks, result⟩)

mutual

/-- The number of turns for a value that is copied as a whole. -/
def turns : JsonValue N → ℕ
  | .array items => itemsTurns items + 2
  | .object members => membersTurns members + 2
  | _ => 1

def itemsTurns : List (JsonValue N) → ℕ
  | [] => 0
  | item :: items => turns item + itemsTurns items

def membersTurns : List (String × JsonValue N) → ℕ
  | [] => 0
  | (_, value) :: members => turns value + membersTurns members

end

end Tasks

/-- The include mask: everything, or the included paths that exist. -/
def includeMask (original : JsonValue N) (includes : Option (List (List String))) : MaskNode :=
  match includes with
  | none => .node true fun _ ↦ none
  | some includes => (includes.filter (exists? original)).foldl MaskNode.insert .empty

def projectCanonicalProperties (value : Properties N) (masks : CanonicalPropertiesMasks) :
    Except String (Option (JsonValue N)) := do
  let (includes, omits) ← decodedMasks masks
  let original := JsonValue.object value.members
  let mask := includeMask original includes
  let omitted := omits.foldl MaskNode.insert .empty
  return drain (turns original + 1)
    ⟨[.visit ⟨original, some mask, some omitted, mask.whole, .result⟩], none⟩

end Bdp.Projection
