import Mathlib.Data.List.TakeWhile

/-!
# Where a scan stops

A scan that takes letters while a test holds stops at the first letter that fails it, so what was
put together out of a run and a rest is taken apart again.
-/

namespace Bdp.Spans

variable {α : Type} {test : α → Bool} {passed rest text : List α}

/-- A scan stops where its test first fails. -/
theorem span_append (h : ∀ unit ∈ passed, test unit = true)
    (hrest : ∀ unit ∈ rest.head?, test unit = false) :
    (passed ++ rest).takeWhile test = passed ∧ (passed ++ rest).dropWhile test = rest := by
  have hstop : rest.takeWhile test = [] ∧ rest.dropWhile test = rest := by
    cases rest with
    | nil => exact ⟨rfl, rfl⟩
    | cons unit rest => simp [hrest unit rfl]
  rw [List.takeWhile_append_of_pos h, List.dropWhile_append_of_pos h, hstop.1, hstop.2,
    List.append_nil]
  exact ⟨rfl, rfl⟩

variable [DecidableEq α] {separator : α}

theorem span_separator (h : separator ∉ text) (rest : List α) :
    (text ++ separator :: rest).takeWhile (· ≠ separator) = text ∧
      (text ++ separator :: rest).dropWhile (· ≠ separator) = separator :: rest := by
  apply span_append
  · intro letter hmem
    exact decide_eq_true fun heq ↦ h (heq ▸ hmem)
  · intro letter hletter
    rw [← Option.some.inj hletter]
    simp

/-- What stands before the first separator. -/
theorem takeWhile_separator (h : separator ∉ text) (rest : List α) :
    (text ++ separator :: rest).takeWhile (· ≠ separator) = text := (span_separator h rest).1

theorem dropWhile_separator (h : separator ∉ text) (rest : List α) :
    (text ++ separator :: rest).dropWhile (· ≠ separator) = separator :: rest :=
  (span_separator h rest).2

end Bdp.Spans
