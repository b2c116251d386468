import Mathlib.Data.List.Infix
import Mathlib.Logic.Function.Basic
import Mathlib.Tactic.Common

/-!
# Masks of paths

A mask is a trie of paths. A path that is inserted covers everything at and under it, so what was
inserted under it before is dropped, and what would be inserted under it later is not looked at.
What a mask covers and what it reaches is nevertheless a matter of the inserted paths alone.
-/

namespace Bdp.Projection

/-- A node of a mask: whether everything under it is meant, and else its children. -/
inductive MaskNode where
  | node (whole : Bool) (children : String → Option MaskNode)

namespace MaskNode

def whole : MaskNode → Bool
  | .node whole _ => whole

def child : MaskNode → String → Option MaskNode
  | .node _ children => children

def empty : MaskNode := .node false fun _ ↦ none

def insert : MaskNode → List String → MaskNode
  | .node _ _, [] => .node true fun _ ↦ none
  | .node whole children, key :: path =>
    if whole then .node whole children
    else .node whole
      (Function.update children key (some (insert ((children key).getD empty) path)))

/-- The node of some path to which the given one belongs is whole. -/
def covers : MaskNode → List String → Bool
  | mask, [] => mask.whole
  | mask, key :: path => mask.whole || (mask.child key).any fun child ↦ covers child path

/-- The given path is covered, or leads to a node of the mask. -/
def reaches : MaskNode → List String → Bool
  | _, [] => true
  | mask, key :: path => mask.whole || (mask.child key).any fun child ↦ reaches child path

section Laws

variable {mask : MaskNode} {path other : List String}

theorem covers_of_whole (h : mask.whole = true) : mask.covers path = true := by
  cases path with
  | nil => exact h
  | cons key path => rw [covers, h, Bool.true_or]

theorem reaches_of_whole (h : mask.whole = true) : mask.reaches path = true := by
  cases path with
  | nil => rfl
  | cons key path => rw [reaches, h, Bool.true_or]

theorem covers_empty : empty.covers path = false := by
  cases path with
  | nil => rfl
  | cons key path => rfl

theorem reaches_empty : empty.reaches path = decide (path = []) := by
  cases path with
  | nil => rfl
  | cons key path => rfl

theorem covers_getD (children : Option MaskNode) :
    (children.getD empty).covers path = children.any fun child ↦ child.covers path := by
  cases children with
  | none => exact covers_empty
  | some child => rfl

theorem covers_insert :
    (mask.insert other).covers path = (mask.covers path || other.isPrefixOf path) := by
  induction other generalizing mask path with
  | nil =>
    have hwhole : (mask.insert []).whole = true := by cases mask; rfl
    rw [covers_of_whole hwhole, List.isPrefixOf_nil_left, Bool.or_true]
  | cons key other ih =>
    obtain ⟨whole, children⟩ := mask
    cases whole with
    | true =>
      rw [insert, if_pos rfl, covers_of_whole rfl, Bool.true_or]
    | false =>
      rw [insert, if_neg Bool.false_ne_true]
      cases path with
      | nil => rfl
      | cons name path =>
        by_cases h : name = key
        · subst h
          simp only [covers, whole, child, Function.update_self, Option.any_some, ih, covers_getD,
            Bool.false_or, List.isPrefixOf, beq_self_eq_true, Bool.true_and]
        · have hbeq : (key == name) = false := beq_false_of_ne (Ne.symm h)
          simp only [covers, whole, child, Function.update_of_ne h, List.isPrefixOf, hbeq,
            Bool.false_and, Bool.or_false]

theorem reaches_insert : (mask.insert other).reaches path =
    (mask.reaches path || other.isPrefixOf path || path.isPrefixOf other) := by
  induction other generalizing mask path with
  | nil =>
    have hwhole : (mask.insert []).whole = true := by cases mask; rfl
    rw [reaches_of_whole hwhole, List.isPrefixOf_nil_left, Bool.or_true, Bool.true_or]
  | cons key other ih =>
    obtain ⟨whole, children⟩ := mask
    cases whole with
    | true =>
      rw [insert, if_pos rfl, reaches_of_whole rfl, Bool.true_or, Bool.true_or]
    | false =>
      rw [insert, if_neg Bool.false_ne_true]
      cases path with
      | nil => rfl
      | cons name path =>
        by_cases h : name = key
        · subst h
          have hchild : ((children name).getD empty).reaches path =
              ((children name).any (fun child ↦ child.reaches path) ||
                ((children name).isNone && decide (path = []))) := by
            cases children name with
            | none => exact reaches_empty
            | some child => simp
          simp only [reaches, whole, child, Function.update_self, Option.any_some, ih, hchild,
            Bool.false_or, List.isPrefixOf, beq_self_eq_true, Bool.true_and]
          cases path with
          | nil => simp
          | cons first path => simp
        · have hbeq : (key == name) = false := beq_false_of_ne (Ne.symm h)
          have hbeq' : (name == key) = false := beq_false_of_ne h
          simp only [reaches, whole, child, Function.update_of_ne h, List.isPrefixOf, hbeq, hbeq',
            Bool.false_and, Bool.or_false]

variable (paths : List (List String))

theorem covers_foldl : (paths.foldl insert mask).covers path =
      (mask.covers path || paths.any fun other ↦ other.isPrefixOf path) := by
  induction paths generalizing mask with
  | nil => rw [List.foldl_nil, List.any_nil, Bool.or_false]
  | cons first paths ih => rw [List.foldl_cons, ih, covers_insert, List.any_cons, Bool.or_assoc]

theorem reaches_foldl : (paths.foldl insert mask).reaches path = (mask.reaches path ||
      paths.any fun other ↦ other.isPrefixOf path || path.isPrefixOf other) := by
  induction paths generalizing mask with
  | nil => rw [List.foldl_nil, List.any_nil, Bool.or_false]
  | cons first paths ih =>
    rw [List.foldl_cons, ih, reaches_insert, List.any_cons, Bool.or_assoc, Bool.or_assoc,
      Bool.or_assoc]

end Laws

end MaskNode

end Bdp.Projection
