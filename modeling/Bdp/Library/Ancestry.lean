import Mathlib.Data.List.Chain
import Mathlib.Logic.Relation
import Mathlib.Order.Bounds.Basic
import Mathlib.Order.MinMax

/-!
# Ancestry

Paths along a relation between nodes and their parents: the greatest number of nodes on a path, the
paths of a whole set of nodes, and why a node with a longest path lies on no cycle.
-/

namespace Bdp

namespace Ancestry

variable {α : Type} {parent : α → α → Prop} {node : α}

/-- The numbers of nodes on the paths that start at a node. -/
def pathLengths (parent : α → α → Prop) (node : α) : Set ℕ :=
  {count | ∃ path, List.IsChain parent (node :: path) ∧ path.length + 1 = count}

/-- The longest path from a node has this many nodes. -/
def Deepest (parent : α → α → Prop) (node : α) (depth : ℕ) : Prop :=
  IsGreatest (pathLengths parent node) depth

theorem one_mem_pathLengths : 1 ∈ pathLengths parent node := ⟨[], List.IsChain.singleton node, rfl⟩

variable {count : ℕ}
variable {ancestor : α}

theorem succ_mem_pathLengths (h : parent node ancestor)
    (hcount : count ∈ pathLengths parent ancestor) : 1 + count ∈ pathLengths parent node := by
  obtain ⟨path, hpath, rfl⟩ := hcount
  exact ⟨ancestor :: path, List.isChain_cons_cons.mpr ⟨h, hpath⟩, Nat.add_comm _ _⟩

/-- A path goes on from a parent, unless it is the node alone. -/
theorem mem_pathLengths_cases (h : count ∈ pathLengths parent node) :
    count = 1 ∨ ∃ ancestor, parent node ancestor ∧
      ∃ rest ∈ pathLengths parent ancestor, count = 1 + rest := by
  obtain ⟨path, hpath, rfl⟩ := h
  cases path with
  | nil => exact .inl rfl
  | cons ancestor path =>
    obtain ⟨hparent, hrest⟩ := List.isChain_cons_cons.mp hpath
    exact .inr ⟨ancestor, hparent, path.length + 1, ⟨path, hrest, rfl⟩, Nat.add_comm _ _⟩

section Greatest

variable {parents : List α} {level : α → ℕ}
variable (start : ℕ)

theorem le_foldl_max :
    start ≤ parents.foldl (fun depth ancestor ↦ max depth (1 + level ancestor)) start := by
  induction parents generalizing start with
  | nil => exact le_rfl
  | cons first parents ih => exact (Nat.le_max_left _ _).trans (ih _)

theorem le_foldl_max_of_mem (h : ancestor ∈ parents) (start : ℕ) : 1 + level ancestor ≤
      parents.foldl (fun depth ancestor ↦ max depth (1 + level ancestor)) start := by
  induction parents generalizing start with
  | nil => cases h
  | cons first parents ih =>
    obtain rfl | h := List.mem_cons.mp h
    · exact (Nat.le_max_right _ _).trans (le_foldl_max _)
    · exact ih h _

theorem foldl_max_attained :
    parents.foldl (fun depth ancestor ↦ max depth (1 + level ancestor)) start = start ∨
      ∃ ancestor ∈ parents,
        parents.foldl (fun depth ancestor ↦ max depth (1 + level ancestor)) start =
          1 + level ancestor := by
  induction parents generalizing start with
  | nil => exact .inl rfl
  | cons first parents ih =>
    rw [List.foldl_cons]
    obtain h | ⟨ancestor, hmem, h⟩ := ih (max start (1 + level first))
    · rw [h]
      obtain hmax | hmax := max_choice start (1 + level first)
      · exact .inl hmax
      · exact .inr ⟨first, List.mem_cons_self, hmax⟩
    · exact .inr ⟨ancestor, List.mem_cons_of_mem _ hmem, h⟩

/-- One more than the deepest parent, or one for a node without parents. -/
theorem deepest_of_parents (hparents : ∀ ancestor, parent node ancestor ↔ ancestor ∈ parents)
    (hlevel : ∀ ancestor ∈ parents, Deepest parent ancestor (level ancestor)) :
    Deepest parent node
      (parents.foldl (fun depth ancestor ↦ max depth (1 + level ancestor)) 1) := by
  constructor
  · obtain h | ⟨ancestor, hmem, h⟩ := foldl_max_attained 1
    · rw [h]
      exact one_mem_pathLengths
    · rw [h]
      exact succ_mem_pathLengths ((hparents ancestor).mpr hmem) (hlevel ancestor hmem).1
  · intro count hcount
    obtain rfl | ⟨ancestor, hparent, rest, hrest, rfl⟩ := mem_pathLengths_cases hcount
    · exact le_foldl_max 1
    · have hmem := (hparents ancestor).mp hparent
      calc 1 + rest ≤ 1 + level ancestor := Nat.add_le_add_left ((hlevel ancestor hmem).2 hrest) 1
        _ ≤ _ := le_foldl_max_of_mem hmem 1

end Greatest

theorem exists_longer_path {descendant : α} (h : Relation.TransGen parent descendant node)
    (hcount : count ∈ pathLengths parent node) :
    ∃ longer ∈ pathLengths parent descendant, count < longer := by
  induction h using Relation.TransGen.head_induction_on with
  | single hparent => exact ⟨_, succ_mem_pathLengths hparent hcount, by omega⟩
  | head hparent _ ih =>
    obtain ⟨longer, hlonger, hlt⟩ := ih
    exact ⟨_, succ_mem_pathLengths hparent hlonger, by omega⟩

/-- A cycle would make every path from its nodes longer. -/
theorem Deepest.not_cycle {depth : ℕ} (h : Deepest parent node depth) :
    ¬ Relation.TransGen parent node node := by
  intro hcycle
  obtain ⟨longer, hlonger, hlt⟩ := exists_longer_path hcycle h.1
  exact absurd (h.2 hlonger) (not_le.mpr hlt)

/-- The numbers of nodes on the paths inside a set of nodes; the empty path counts too. -/
def pathsWithin (parent : α → α → Prop) (nodes : α → Prop) : Set ℕ :=
  {count | ∃ path, List.IsChain parent path ∧ (∀ node ∈ path, nodes node) ∧ path.length = count}

end Ancestry

end Bdp
