import Bdp.Library.CodeUnits

/-!
# JSON trees over texts

Trees of arrays and objects over an arbitrary type of leaves. An object lists its members in the
order of insertion; a regular tree has no object with two members of one name, enumerates every
object in ECMAScript order and has only regular leaves. The compact text of a tree is its
recursive serialization.
-/

namespace Bdp

open List (mem_map map_congr_left)

/-- A JSON tree; leaves are the values that are neither arrays nor objects. -/
inductive JsonTree (L : Type) where
  | leaf (value : L)
  | array (items : List (JsonTree L))
  | object (members : List (Text × JsonTree L))

namespace JsonTree

variable {L M : Type}

/-- Induction over a tree: containers assume the statement of all their children. -/
@[elab_as_elim]
theorem induct {motive : JsonTree L → Prop} (leaf : ∀ value, motive (.leaf value))
    (array : ∀ items, (∀ item ∈ items, motive item) → motive (.array items))
    (object : ∀ members, (∀ member ∈ members, motive member.2) → motive (.object members))
    (tree : JsonTree L) : motive tree := by
  refine @JsonTree.rec L motive (fun items ↦ ∀ item ∈ items, motive item)
    (fun members ↦ ∀ member ∈ members, motive member.2) (fun member ↦ motive member.2)
    leaf array object ?_ ?_ ?_ ?_ ?_ tree
  · simp
  · intro item items hitem hitems
    exact List.forall_mem_cons.mpr ⟨hitem, hitems⟩
  · simp
  · intro member members hmember hmembers
    exact List.forall_mem_cons.mpr ⟨hmember, hmembers⟩
  · intro name value hvalue
    exact hvalue

/-- A container that is still being filled: its children so far. -/
inductive Container (L : Type) where
  | array (items : List (JsonTree L))
  | object (members : List (Text × JsonTree L))

namespace Container

def isObject : Container L → Bool
  | .array _ => false
  | .object _ => true

/-- The member names that the container already has. -/
def keys : Container L → List Text
  | .array _ => []
  | .object members => members.map Prod.fst

/-- The delimiter that closes the container. -/
def close (container : Container L) : ℕ := if container.isObject then 125 else 93

/-- The value of a complete container; an object enumerates its members in ECMAScript order. -/
def tree : Container L → JsonTree L
  | .array items => .array items
  | .object members => .object (CodeUnits.enumeration members)

/-- The container with one more child, under a name in an object. -/
def put (container : Container L) (key : Text) (child : JsonTree L) : Container L :=
  match container with
  | .array items => .array (items ++ [child])
  | .object members => .object (members ++ [(key, child)])

end Container

variable (members : List (Text × JsonTree L)) (items : List (JsonTree L))

section Text

/-- Texts joined by commas. -/
def commas : List Text → Text
  | [] => []
  | [text] => text
  | text :: next :: rest => text ++ 44 :: commas (next :: rest)

variable (write : L → Text)

mutual

/-- The compact text of a tree, members in their order. -/
def text : JsonTree L → Text
  | .leaf value => write value
  | .array items => 91 :: (commas (itemTexts items) ++ [93])
  | .object members => 123 :: (commas (memberTexts members) ++ [125])

def itemTexts : List (JsonTree L) → List Text
  | [] => []
  | item :: items => item.text :: itemTexts items

def memberTexts : List (Text × JsonTree L) → List Text
  | [] => []
  | (name, value) :: members =>
    (CodeUnits.quote name ++ 58 :: value.text) :: memberTexts members

end

theorem itemTexts_eq_map : itemTexts write items = items.map (text write) := by
  induction items with
  | nil => rfl
  | cons item items ih => simp [itemTexts, ih]

theorem memberTexts_eq_map : memberTexts write members =
      members.map fun member ↦ CodeUnits.quote member.1 ++ 58 :: text write member.2 := by
  induction members with
  | nil => rfl
  | cons member members ih => simp [memberTexts, ih]

end Text

section Enumeration

mutual

/-- The tree with the members of every object in enumeration order. -/
def enumerated : JsonTree L → JsonTree L
  | .leaf value => .leaf value
  | .array items => .array (enumeratedItems items)
  | .object members => .object (CodeUnits.enumeration (enumeratedMembers members))

def enumeratedItems : List (JsonTree L) → List (JsonTree L)
  | [] => []
  | item :: items => item.enumerated :: enumeratedItems items

def enumeratedMembers : List (Text × JsonTree L) → List (Text × JsonTree L)
  | [] => []
  | (name, value) :: members => (name, value.enumerated) :: enumeratedMembers members

end

theorem enumeratedItems_eq_map : enumeratedItems items = items.map enumerated := by
  induction items with
  | nil => rfl
  | cons item items ih => simp [enumeratedItems, ih]

theorem enumeratedMembers_eq_map :
    enumeratedMembers members = members.map (Prod.map id enumerated) := by
  induction members with
  | nil => rfl
  | cons member members ih => simp [enumeratedMembers, ih, Prod.map]

/-- Distinct member names and well-formed names and leaves, at every depth. -/
inductive WellNamed (name : Text → Prop) (leaf : L → Prop) : JsonTree L → Prop
  | leaf {value : L} (valid : leaf value) : WellNamed name leaf (.leaf value)
  | array {items : List (JsonTree L)} (children : ∀ item ∈ items, WellNamed name leaf item) :
      WellNamed name leaf (.array items)
  | object {members : List (Text × JsonTree L)} (distinct : (members.map Prod.fst).Nodup)
      (names : ∀ member ∈ members, name member.1)
      (children : ∀ member ∈ members, WellNamed name leaf member.2) :
      WellNamed name leaf (.object members)

variable {name : Text → Prop} {leaf : L → Prop}
variable {tree : JsonTree L}

theorem wellNamed_enumerated (h : WellNamed name leaf tree) :
    WellNamed name leaf tree.enumerated := by
  induction h with
  | leaf valid => exact .leaf valid
  | array _ ih =>
    rw [enumerated, enumeratedItems_eq_map]
    apply WellNamed.array
    intro item hitem
    obtain ⟨child, hchild, rfl⟩ := mem_map.mp hitem
    exact ih child hchild
  | @object members distinct names _ ih =>
    rw [enumerated, enumeratedMembers_eq_map]
    have hperm := CodeUnits.enumeration_perm (members.map (Prod.map id enumerated))
    have hkept : ∀ member ∈ CodeUnits.enumeration (members.map (Prod.map id enumerated)),
        ∃ child ∈ members, member = Prod.map id enumerated child := by
      intro member hmember
      obtain ⟨child, hchild, rfl⟩ := mem_map.mp (hperm.mem_iff.mp hmember)
      exact ⟨child, hchild, rfl⟩
    apply WellNamed.object
    · apply ((hperm.map Prod.fst).nodup_iff).mpr
      simpa [List.map_map, Function.comp_def, Prod.map] using distinct
    · intro member hmember
      obtain ⟨child, hchild, rfl⟩ := hkept member hmember
      exact names child hchild
    · intro member hmember
      obtain ⟨child, hchild, rfl⟩ := hkept member hmember
      exact ih child hchild

@[simp]
theorem enumerated_enumerated (tree : JsonTree L) :
    tree.enumerated.enumerated = tree.enumerated := by
  induction tree using induct with
  | leaf value => rfl
  | array items ih =>
    simp only [enumerated, enumeratedItems_eq_map, List.map_map]
    exact congrArg JsonTree.array (map_congr_left ih)
  | object members ih =>
    simp only [enumerated, enumeratedMembers_eq_map]
    rw [← CodeUnits.enumeration_map, CodeUnits.enumeration_idem, List.map_map]
    apply congrArg (JsonTree.object ∘ CodeUnits.enumeration)
    apply map_congr_left
    intro member hmember
    exact Prod.ext rfl (ih member hmember)

/-- A tree as a program holds it: well named, every object in enumeration order. -/
structure Regular (name : Text → Prop) (leaf : L → Prop) (tree : JsonTree L) : Prop where
  wellNamed : WellNamed name leaf tree
  order : tree.enumerated = tree

theorem regular_enumerated (h : WellNamed name leaf tree) : Regular name leaf tree.enumerated :=
  ⟨wellNamed_enumerated h, enumerated_enumerated tree⟩

end Enumeration

section Map

mutual

/-- The tree with every leaf changed. -/
def map (change : L → M) : JsonTree L → JsonTree M
  | .leaf value => .leaf (change value)
  | .array items => .array (mapItems change items)
  | .object members => .object (mapMembers change members)

def mapItems (change : L → M) : List (JsonTree L) → List (JsonTree M)
  | [] => []
  | item :: items => item.map change :: mapItems change items

def mapMembers (change : L → M) : List (Text × JsonTree L) → List (Text × JsonTree M)
  | [] => []
  | (name, value) :: members => (name, value.map change) :: mapMembers change members

end

variable (change : L → M)

theorem mapItems_eq_map : mapItems change items = items.map (map change) := by
  induction items with
  | nil => rfl
  | cons item items ih => simp [mapItems, ih]

theorem mapMembers_eq_map : mapMembers change members = members.map (Prod.map id (map change)) := by
  induction members with
  | nil => rfl
  | cons member members ih => simp [mapMembers, ih, Prod.map]

theorem text_map (write : M → Text) (change : L → M) (tree : JsonTree L) :
    (tree.map change).text write = tree.text (write ∘ change) := by
  induction tree using induct with
  | leaf value => rfl
  | array items ih =>
    simp only [map, text, mapItems_eq_map, itemTexts_eq_map, List.map_map]
    have hitems : items.map (text write ∘ map change) = items.map (text (write ∘ change)) :=
      map_congr_left ih
    rw [hitems]
  | object members ih =>
    simp only [map, text, mapMembers_eq_map, memberTexts_eq_map, List.map_map]
    rw [map_congr_left]
    intro member hmember
    simp [ih member hmember]

theorem map_map {N : Type} (again : M → N) (tree : JsonTree L) :
    (tree.map change).map again = tree.map (again ∘ change) := by
  induction tree using induct with
  | leaf value => rfl
  | array items ih =>
    simp only [map, mapItems_eq_map, List.map_map]
    exact congrArg JsonTree.array (map_congr_left ih)
  | object members ih =>
    simp only [map, mapMembers_eq_map, List.map_map]
    apply congrArg JsonTree.object
    apply map_congr_left
    intro member hmember
    exact Prod.ext rfl (ih member hmember)

theorem enumerated_map (tree : JsonTree L) :
    (tree.map change).enumerated = tree.enumerated.map change := by
  induction tree using induct with
  | leaf value => rfl
  | array items ih =>
    simp only [map, enumerated, mapItems_eq_map, enumeratedItems_eq_map, List.map_map]
    exact congrArg JsonTree.array (map_congr_left ih)
  | object members ih =>
    simp only [map, enumerated, mapMembers_eq_map, enumeratedMembers_eq_map, List.map_map,
      ← CodeUnits.enumeration_map]
    apply congrArg (JsonTree.object ∘ CodeUnits.enumeration)
    apply map_congr_left
    intro member hmember
    exact Prod.ext rfl (ih member hmember)

variable {tree : JsonTree L} {name : Text → Prop} {leaf : L → Prop}

section

variable (h : WellNamed name leaf tree)
include h

theorem WellNamed.map {leaf' : M → Prop} {change : L → M}
    (hleaf : ∀ value, leaf value → leaf' (change value)) :
    WellNamed name leaf' (tree.map change) := by
  induction h with
  | leaf valid => exact .leaf (hleaf _ valid)
  | array _ ih =>
    rw [JsonTree.map, mapItems_eq_map]
    apply WellNamed.array
    intro item hitem
    obtain ⟨child, hchild, rfl⟩ := mem_map.mp hitem
    exact ih child hchild
  | object distinct names _ ih =>
    rw [JsonTree.map, mapMembers_eq_map]
    apply WellNamed.object
    · simpa [List.map_map, Function.comp_def, Prod.map] using distinct
    · intro member hmember
      obtain ⟨child, hchild, rfl⟩ := mem_map.mp hmember
      exact names child hchild
    · intro member hmember
      obtain ⟨child, hchild, rfl⟩ := mem_map.mp hmember
      exact ih child hchild

theorem WellNamed.map_eq_self {change : L → L}
    (hleaf : ∀ value, leaf value → change value = value) : tree.map change = tree := by
  induction h with
  | leaf valid => exact congrArg JsonTree.leaf (hleaf _ valid)
  | array _ ih =>
    rw [JsonTree.map, mapItems_eq_map]
    exact congrArg JsonTree.array ((map_congr_left ih).trans (List.map_id _))
  | object _ _ _ ih =>
    rw [JsonTree.map, mapMembers_eq_map]
    apply congrArg JsonTree.object
    refine (map_congr_left ?_).trans (List.map_id _)
    intro member hmember
    exact Prod.ext rfl (ih member hmember)

theorem WellNamed.mono {leaf' : L → Prop} (hleaf : ∀ value, leaf value → leaf' value) :
    WellNamed name leaf' tree := by
  induction h with
  | leaf valid => exact .leaf (hleaf _ valid)
  | array _ ih => exact .array ih
  | object distinct names _ ih => exact .object distinct names ih

end

end Map

end JsonTree

end Bdp
