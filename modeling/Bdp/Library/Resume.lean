import Mathlib

/-!
# Resuming an ordered log

A log whose entries ascend in a key. A reader that starts at a cut of the log and has taken its
first entries resumes behind the key of the last one that it took: it misses none of the rest and
takes none again.
-/

namespace Bdp

variable {α κ : Type} [LinearOrder κ] {key : α → κ} {log front rest : List α} {last : α}

/-- The entries above a key. -/
def above (key : α → κ) (bound : κ) (log : List α) : List α :=
  log.filter fun entry ↦ decide (bound < key entry)

/-- In an ascending log, the entries above one of them are those that follow it. -/
theorem above_of_split (ascending : (front ++ last :: rest).Pairwise fun left right ↦
    key left < key right) : above key (key last) (front ++ last :: rest) = rest := by
  obtain ⟨_, second, across⟩ := List.pairwise_append.mp ascending
  obtain ⟨follows, _⟩ := List.pairwise_cons.mp second
  have taken : above key (key last) front = [] := by
    apply List.filter_eq_nil_iff.mpr
    intro entry member later
    have earlier := across entry member last List.mem_cons_self
    exact lt_asymm earlier (of_decide_eq_true later)
  have kept : above key (key last) rest = rest := by
    apply List.filter_eq_self.mpr
    intro entry member
    exact decide_eq_true (follows entry member)
  calc
    above key (key last) (front ++ last :: rest) =
        above key (key last) front ++ above key (key last) (last :: rest) := List.filter_append ..
    _ = above key (key last) (last :: rest) := by rw [taken, List.nil_append]
    _ = above key (key last) rest :=
      List.filter_cons_of_neg (by rw [decide_eq_true_iff]; exact lt_irrefl _)
    _ = rest := kept

/-- A cut that keeps everything above what it keeps. -/
def CutsBelow (key : α → κ) (keep : α → Bool) : Prop :=
  ∀ left right, keep left = true → key left < key right → keep right = true

/-- The rest of a cut is what lies above the last entry that was taken of it. -/
theorem rest_eq_above {keep : α → Bool} (cut : CutsBelow key keep)
    (ascending : log.Pairwise fun left right ↦ key left < key right)
    (split : log.filter keep = front ++ last :: rest) : rest = above key (key last) log := by
  have kept : keep last = true := by
    have member : last ∈ log.filter keep := by
      rw [split]
      exact List.mem_append_right _ List.mem_cons_self
    exact (List.mem_filter.mp member).2
  have both : above key (key last) (log.filter keep) = above key (key last) log := by
    unfold above
    rw [List.filter_filter]
    apply List.filter_congr
    intro entry _
    by_cases later : key last < key entry
    · rw [cut last entry kept later, Bool.and_true]
    · rw [decide_eq_false later, Bool.false_and]
  have sorted : (log.filter keep).Pairwise fun left right ↦ key left < key right :=
    ascending.filter _
  rw [split] at sorted
  calc
    rest = above key (key last) (front ++ last :: rest) := (above_of_split sorted).symm
    _ = above key (key last) (log.filter keep) := by rw [split]
    _ = above key (key last) log := both

end Bdp
