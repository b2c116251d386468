import Mathlib.Data.Rat.Defs
import Mathlib.Data.String.Basic

/-!
# JSON values

Ordered JSON trees over an arbitrary type of numbers. An object lists its members in enumeration
order, so two trees are equal exactly when their compact texts are. Property reads return `none`
for what a dynamic language calls undefined. A `JsonCodec` is a text format for these trees in
which reading back a written text gives the tree again.
-/

namespace Bdp

/-- A JSON tree; the members of an object are kept in enumeration order. -/
inductive JsonValue (N : Type) where
  | null
  | bool (value : Bool)
  | number (value : N)
  | string (value : String)
  | array (items : List (JsonValue N))
  | object (members : List (String × JsonValue N))

namespace JsonValue

variable {N : Type}

section Decidable

variable [DecidableEq N]

mutual

/-- Equality of trees is decided node by node. -/
def decEq : (left right : JsonValue N) → Decidable (left = right)
  | .null, right => match right with
    | .null => isTrue rfl
    | .bool _ | .number _ | .string _ | .array _ | .object _ => isFalse (by simp)
  | .bool x, right => match right with
    | .bool y => decidable_of_iff (x = y) (by simp)
    | .null | .number _ | .string _ | .array _ | .object _ => isFalse (by simp)
  | .number x, right => match right with
    | .number y => decidable_of_iff (x = y) (by simp)
    | .null | .bool _ | .string _ | .array _ | .object _ => isFalse (by simp)
  | .string x, right => match right with
    | .string y => decidable_of_iff (x = y) (by simp)
    | .null | .bool _ | .number _ | .array _ | .object _ => isFalse (by simp)
  | .array xs, right => match right with
    | .array ys => @decidable_of_iff _ (xs = ys) (by simp) (decEqItems xs ys)
    | .null | .bool _ | .number _ | .string _ | .object _ => isFalse (by simp)
  | .object xs, right => match right with
    | .object ys => @decidable_of_iff _ (xs = ys) (by simp) (decEqMembers xs ys)
    | .null | .bool _ | .number _ | .string _ | .array _ => isFalse (by simp)

def decEqItems : (left right : List (JsonValue N)) → Decidable (left = right)
  | [], [] => isTrue rfl
  | [], _ :: _ => isFalse (by simp)
  | _ :: _, [] => isFalse (by simp)
  | x :: xs, y :: ys => match decEq x y with
    | isTrue h => match decEqItems xs ys with
      | isTrue h' => isTrue (by rw [h, h'])
      | isFalse h' => isFalse (by simp [h'])
    | isFalse h => isFalse (by simp [h])

def decEqMembers : (left right : List (String × JsonValue N)) → Decidable (left = right)
  | [], [] => isTrue rfl
  | [], _ :: _ => isFalse (by simp)
  | _ :: _, [] => isFalse (by simp)
  | (k, x) :: xs, (l, y) :: ys =>
    if hk : k = l then match decEq x y with
      | isTrue h => match decEqMembers xs ys with
        | isTrue h' => isTrue (by rw [hk, h, h'])
        | isFalse h' => isFalse (by simp [h'])
      | isFalse h => isFalse (by simp [h])
    else isFalse (by simp [hk])

end

instance : DecidableEq (JsonValue N) := decEq

end Decidable

/-- Own member of an object; every other value has none. -/
def member (value : JsonValue N) (name : String) : Option (JsonValue N) :=
  match value with
  | .object members => members.lookup name
  | _ => none

/-- The text of a string node. -/
def asString : JsonValue N → Option String
  | .string value => some value
  | _ => none

def asArray : JsonValue N → Option (List (JsonValue N))
  | .array items => some items
  | _ => none

def asObject : JsonValue N → Option (List (String × JsonValue N))
  | .object members => some members
  | _ => none

mutual

/-- Nesting depth: scalars have depth zero and each container adds one. -/
def depth : JsonValue N → ℕ
  | .array items => itemsDepth items + 1
  | .object members => membersDepth members + 1
  | _ => 0

def itemsDepth : List (JsonValue N) → ℕ
  | [] => 0
  | item :: items => max item.depth (itemsDepth items)

def membersDepth : List (String × JsonValue N) → ℕ
  | [] => 0
  | (_, value) :: members => max value.depth (membersDepth members)

end

mutual

/-- No object of the tree names a member twice. -/
def uniqueNames : JsonValue N → Bool
  | .array items => itemsUniqueNames items
  | .object members => decide (members.map Prod.fst).Nodup && membersUniqueNames members
  | _ => true

def itemsUniqueNames : List (JsonValue N) → Bool
  | [] => true
  | item :: items => item.uniqueNames && itemsUniqueNames items

def membersUniqueNames : List (String × JsonValue N) → Bool
  | [] => true
  | (_, value) :: members => value.uniqueNames && membersUniqueNames members

end

theorem itemsUniqueNames_eq_true {items : List (JsonValue N)} :
    itemsUniqueNames items = true ↔ ∀ item ∈ items, item.uniqueNames = true := by
  induction items with
  | nil => simp [itemsUniqueNames]
  | cons item items ih => simp [itemsUniqueNames, ih]

theorem membersUniqueNames_eq_true {members : List (String × JsonValue N)} :
    membersUniqueNames members = true ↔ ∀ entry ∈ members, entry.2.uniqueNames = true := by
  induction members with
  | nil => simp [membersUniqueNames]
  | cons entry members ih => simp [membersUniqueNames, ih]

end JsonValue

/-- A text format for JSON trees. -/
structure JsonCodec (N : Type) where
  stringify : JsonValue N → String
  parse : String → Option (JsonValue N)

end Bdp
