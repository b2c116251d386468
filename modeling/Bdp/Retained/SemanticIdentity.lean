import Mathlib.Data.List.Sort
import Bdp.Retained.Contract

/-!
# Semantic identities

The durable comparison text of a request. A semantic value is encoded as a tree of tagged nodes
with the members of every object in name order, so requests that differ only in member order have
one identity. Numbers arrive as their exact coefficient and exponent.
-/

namespace Bdp.Retained

inductive SemanticValue where
  | null
  | boolean (value : Bool)
  | string (value : String)
  | number (coefficient exponent : String)
  | unbound
  | array (items : List SemanticValue)
  | object (members : List (String × SemanticValue))

abbrev SemanticObject := List (String × SemanticValue)

def SEMANTIC_VALUE_FORMAT : String := "ru-semantic-value-1"

def sortMembers {α : Type} (members : List (String × α)) : List (String × α) :=
  members.insertionSort fun left right ↦ left.1 ≤ right.1

namespace SemanticValue

mutual

def tagged : SemanticValue → Json
  | .null => .array [.string "null"]
  | .boolean value => .array [.string "boolean", .bool value]
  | .string value => .array [.string "string", .string value]
  | .number coefficient exponent =>
      .array [.string "number", .string coefficient, .string exponent]
  | .unbound => .array [.string "unbound"]
  | .array items => .array [.string "array", .array (taggedItems items)]
  | .object members => .array [.string "object", .array
      ((sortMembers (taggedMembers members)).map fun entry ↦ .array [.string entry.1, entry.2])]

def taggedItems : List SemanticValue → List Json
  | [] => []
  | item :: items => item.tagged :: taggedItems items

def taggedMembers : List (String × SemanticValue) → List (String × Json)
  | [] => []
  | (name, value) :: members => (name, value.tagged) :: taggedMembers members

end

end SemanticValue

/-- The encoded identity: a format tag and the tagged tree. -/
def semanticTree (value : SemanticValue) : Json :=
  .array [.string SEMANTIC_VALUE_FORMAT, value.tagged]

def encodeSemanticValue (codec : JsonCodec ℚ) (value : SemanticValue) : String :=
  codec.stringify (semanticTree value)

/-- Object spread: later members replace earlier ones of the same name in place. -/
def spread {α : Type} (members replacements : List (String × α)) : List (String × α) :=
  replacements.foldl (fun current entry ↦
    if current.any fun old ↦ old.1 = entry.1 then
      current.map fun old ↦ if old.1 = entry.1 then entry else old
    else current ++ [entry]) members

end Bdp.Retained
