import Mathlib.Data.List.Basic

/-!
# Scanners that cut a text

A scanner reads a text letter by letter with a state; where it does not go on, the text is cut and
the letter left out. A text that the scanner passes from one state to another is never cut inside,
so what was joined by a delimiter falls into its parts again.
-/

namespace Bdp

namespace Scanner

variable {σ α : Type} {scan : σ → α → Option σ} {first state last : σ} {text more : List α}

/-- The state after a text that is not cut. -/
def pass (scan : σ → α → Option σ) : σ → List α → Option σ
  | state, [] => some state
  | state, letter :: text => (scan state letter).bind fun next ↦ pass scan next text

/-- The pieces of a text; `current` is what the open piece holds already. -/
def cut (scan : σ → α → Option σ) (first : σ) : σ → List α → List α → List (List α)
  | _, current, [] => [current]
  | state, current, letter :: text =>
    match scan state letter with
    | some next => cut scan first next (current ++ [letter]) text
    | none => current :: cut scan first first [] text

theorem pass_cons {letter : α} {next : σ} (h : scan state letter = some next) :
    pass scan state (letter :: text) = pass scan next text := by
  rw [pass, h]
  rfl

theorem pass_append (h : pass scan state text = some last) :
    pass scan state (text ++ more) = pass scan last more := by
  induction text generalizing state with
  | nil => rw [← Option.some.inj h, List.nil_append]
  | cons letter text ih =>
    obtain ⟨next, hnext, hrest⟩ := Option.bind_eq_some_iff.mp h
    rw [List.cons_append, pass_cons hnext]
    exact ih hrest

/-- Letters that each leave a state alone are passed in it. -/
theorem pass_of_forall (h : ∀ letter ∈ text, scan state letter = some state) :
    pass scan state text = some state := by
  induction text with
  | nil => rfl
  | cons letter text ih =>
    obtain ⟨hletter, htext⟩ := List.forall_mem_cons.mp h
    rw [pass_cons hletter]
    exact ih htext

theorem cut_append {current : List α} (h : pass scan state text = some last) :
    cut scan first state current (text ++ more) = cut scan first last (current ++ text) more := by
  induction text generalizing state current with
  | nil => rw [← Option.some.inj h, List.nil_append, List.append_nil]
  | cons letter text ih =>
    obtain ⟨next, hnext, hrest⟩ := Option.bind_eq_some_iff.mp h
    rw [List.cons_append, cut, hnext]
    simp only [ih hrest, List.append_assoc, List.singleton_append]

/-- A piece, and further ones with a delimiter before each. -/
def delimited (delimiter : α) (piece : List α) (pieces : List (List α)) : List α :=
  piece ++ pieces.flatMap (delimiter :: ·)

/-- Pieces that are passed fall apart at their delimiters and nowhere else. -/
theorem cut_delimited {delimiter : α} {piece : List α} {pieces : List (List α)}
    (hpiece : pass scan first piece = some first)
    (hpieces : ∀ piece ∈ pieces, pass scan first piece = some first)
    (hdelimiter : scan first delimiter = none) :
    cut scan first first [] (delimited delimiter piece pieces) = piece :: pieces := by
  rw [delimited]
  induction pieces generalizing piece with
  | nil =>
    rw [List.flatMap_nil, cut_append hpiece]
    rfl
  | cons second pieces ih =>
    obtain ⟨hsecond, hrest⟩ := List.forall_mem_cons.mp hpieces
    rw [List.flatMap_cons, cut_append hpiece, List.nil_append, List.cons_append, cut, hdelimiter]
    exact congrArg (piece :: ·) (ih hsecond hrest)

end Scanner

end Bdp
