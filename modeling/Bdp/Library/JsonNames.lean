import Bdp.Library.JsonTree

/-!
# Repeated member names

The trees in which some object, at any depth, has two members of one name. A tree is well named
exactly when its names and leaves are well formed and no name is repeated.
-/

namespace Bdp.JsonTree

variable {L : Type}

/-- Some object in the tree has two members of one name. -/
inductive Repeats : JsonTree L → Prop
  | here {members : List (Text × JsonTree L)} (twice : ¬ (members.map Prod.fst).Nodup) :
      Repeats (.object members)
  | item {items : List (JsonTree L)} {item : JsonTree L} (member : item ∈ items)
      (inside : Repeats item) : Repeats (.array items)
  | member {members : List (Text × JsonTree L)} {child : Text × JsonTree L}
      (member : child ∈ members) (inside : Repeats child.2) : Repeats (.object members)

/-- Well-formed names and leaves, at every depth. -/
inductive Everywhere (name : Text → Prop) (leaf : L → Prop) : JsonTree L → Prop
  | leaf {value : L} (valid : leaf value) : Everywhere name leaf (.leaf value)
  | array {items : List (JsonTree L)} (children : ∀ item ∈ items, Everywhere name leaf item) :
      Everywhere name leaf (.array items)
  | object {members : List (Text × JsonTree L)} (names : ∀ member ∈ members, name member.1)
      (children : ∀ member ∈ members, Everywhere name leaf member.2) :
      Everywhere name leaf (.object members)

variable {name : Text → Prop} {leaf : L → Prop}

theorem not_repeats_leaf (value : L) : ¬ Repeats (.leaf value) := nofun

theorem repeats_array {items : List (JsonTree L)} :
    Repeats (.array items) ↔ ∃ item ∈ items, item.Repeats :=
  ⟨fun h ↦ by cases h with | item member inside => exact ⟨_, member, inside⟩,
    fun ⟨_, member, inside⟩ ↦ .item member inside⟩

theorem repeats_object {members : List (Text × JsonTree L)} : Repeats (.object members) ↔
      ¬ (members.map Prod.fst).Nodup ∨ ∃ member ∈ members, member.2.Repeats := by
  constructor
  · intro h
    cases h with
    | here twice => exact .inl twice
    | member member inside => exact .inr ⟨_, member, inside⟩
  · rintro (twice | ⟨_, member, inside⟩)
    · exact .here twice
    · exact .member member inside

/-- A tree without repeated names is well named when its names and leaves are well formed. -/
theorem wellNamed_iff {tree : JsonTree L} :
    WellNamed name leaf tree ↔ Everywhere name leaf tree ∧ ¬ tree.Repeats := by
  constructor
  · intro h
    induction h with
    | leaf valid => exact ⟨.leaf valid, not_repeats_leaf _⟩
    | array _ ih =>
      refine ⟨.array fun item hitem ↦ (ih item hitem).1, fun h ↦ ?_⟩
      obtain ⟨item, hitem, hinside⟩ := repeats_array.mp h
      exact (ih item hitem).2 hinside
    | object distinct names _ ih =>
      refine ⟨.object names fun member hmember ↦ (ih member hmember).1, fun h ↦ ?_⟩
      obtain htwice | ⟨member, hmember, hinside⟩ := repeats_object.mp h
      · exact htwice distinct
      · exact (ih member hmember).2 hinside
  · rintro ⟨h, hunique⟩
    induction h with
    | leaf valid => exact .leaf valid
    | array _ ih =>
      exact .array fun item hitem ↦ ih item hitem fun hinside ↦ hunique (.item hitem hinside)
    | object names _ ih =>
      refine .object ?_ names fun member hmember ↦
        ih member hmember fun hinside ↦ hunique (.member hmember hinside)
      by_contra htwice
      exact hunique (.here htwice)

end Bdp.JsonTree
