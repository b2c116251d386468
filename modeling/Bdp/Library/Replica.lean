import Mathlib.Data.List.Basic
import Mathlib.Logic.Function.Basic

/-!
# Replicas of a keyed image

A replica holds the image of every key, and a change replaces the image of one key. A feed that
names every key whose image differs, and always with its final image, takes a replica from one
state to the other, in whatever order and however often it names them.
-/

namespace Bdp

variable {κ ν : Type} [DecidableEq κ]

/-- The final image of one key; `none` removes the key. -/
structure ImageChange (κ ν : Type) where
  key : κ
  image : Option ν
  deriving DecidableEq

/-- Apply a feed to a replica, in order. -/
def applyFeed (replica : κ → Option ν) (changes : List (ImageChange κ ν)) : κ → Option ν :=
  changes.foldl (fun replica change ↦ Function.update replica change.key change.image) replica

variable (replica : κ → Option ν)

@[simp]
theorem applyFeed_nil : applyFeed replica [] = replica := rfl

theorem applyFeed_cons (change : ImageChange κ ν)
    (changes : List (ImageChange κ ν)) : applyFeed replica (change :: changes) =
      applyFeed (Function.update replica change.key change.image) changes := rfl

theorem applyFeed_append (changes more : List (ImageChange κ ν)) :
    applyFeed replica (changes ++ more) = applyFeed (applyFeed replica changes) more := List.foldl_append

/-- A feed of final images between two states of a replica. -/
structure NetChanges (before after : κ → Option ν) (changes : List (ImageChange κ ν)) : Prop where
  final : ∀ change ∈ changes, change.image = after change.key
  others : ∀ key, key ∉ changes.map ImageChange.key → before key = after key

theorem NetChanges.applyFeed_eq {before after : κ → Option ν} {changes : List (ImageChange κ ν)}
    (net : NetChanges before after changes) : applyFeed before changes = after := by
  induction changes generalizing before with
  | nil =>
    funext key
    exact net.others key List.not_mem_nil
  | cons change changes ih =>
    rw [applyFeed_cons]
    apply ih
    refine ⟨fun other member ↦ net.final other (List.mem_cons_of_mem _ member), ?_⟩
    intro key absent
    by_cases same : key = change.key
    · rw [same, Function.update_self]
      exact net.final change List.mem_cons_self
    · rw [Function.update_of_ne same]
      apply net.others
      rw [List.map_cons]
      exact List.not_mem_cons_of_ne_of_not_mem same absent

end Bdp
