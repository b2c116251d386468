import Bdp.LinkHeader.LinkHeader

/-!
# Where a Link field is cut

The scan by indexes, with its count of the backslashes before each quotation mark, is a scanner with
three flags: inside a quoted string, inside angle brackets, and behind a backslash that escapes.
-/

namespace Bdp.LinkHeader

open CodeUnits Scanner

structure Flags where
  quoted : Bool
  angle : Bool
  escaped : Bool
  deriving DecidableEq

def Flags.idle : Flags := ⟨false, false, false⟩

/-- The scanner for a delimiter, with or without attention to angle brackets. -/
def scanUnit (delimiter : ℕ) (trackAngles : Bool) (flags : Flags) (unit : ℕ) : Option Flags :=
  if unit = quotationMark ∧ flags.escaped = false then some ⟨!flags.quoted, flags.angle, false⟩
  else if trackAngles ∧ flags.quoted = false ∧ unit = lessThan then some ⟨flags.quoted, true, false⟩
  else if trackAngles ∧ flags.quoted = false ∧ unit = greaterThan then
    some ⟨flags.quoted, false, false⟩
  else if flags.quoted = false ∧ flags.angle = false ∧ unit = delimiter then none
  else some ⟨flags.quoted, flags.angle, unit = backslash && !flags.escaped⟩

variable {delimiter unit : ℕ} {trackAngles : Bool} {text before rest : Text} {flags : Flags}

theorem isEscaped_next : isEscaped (before ++ unit :: rest) (before.length + 1) =
      (unit = backslash && !isEscaped (before ++ unit :: rest) before.length) := by
  have hshort : (before ++ unit :: rest).take before.length = before := List.take_left
  have hlong : (before ++ unit :: rest).take (before.length + 1) = before ++ [unit] := by
    rw [List.take_add_one, hshort, List.getElem?_append_right le_rfl, Nat.sub_self]
    rfl
  rw [isEscaped, isEscaped, hshort, hlong, List.reverse_append, List.reverse_singleton,
    List.singleton_append, List.takeWhile_cons]
  by_cases h : unit = backslash
  · rw [decide_eq_true h, if_pos rfl, List.length_cons]
    generalize (before.reverse.takeWhile (· = backslash)).length = count
    by_cases hodd : count % 2 = 1
    · have heven : (count + 1) % 2 = 0 := by omega
      simp [hodd, heven]
    · have hnext : (count + 1) % 2 = 1 := by omega
      simp [hodd, hnext]
  · rw [decide_eq_false h]
    rfl

theorem splitLoop_eq (hdelimiter : delimiter ≠ backslash) (splitting : Splitting)
    (hstart : splitting.start ≤ before.length) :
    ((rest.zipIdx before.length).foldl (splitStep (before ++ rest) delimiter trackAngles)
        splitting).values ++
      [(before ++ rest).drop ((rest.zipIdx before.length).foldl
        (splitStep (before ++ rest) delimiter trackAngles) splitting).start] =
    splitting.values ++ cut (scanUnit delimiter trackAngles) .idle
      ⟨splitting.quoted, splitting.angle, isEscaped (before ++ rest) before.length⟩
      (before.drop splitting.start) rest := by
  induction rest generalizing before splitting with
  | nil =>
    simp only [List.zipIdx_nil, List.foldl_nil, List.append_nil]
    rfl
  | cons unit rest ih =>
    have hdrop : (before ++ [unit]).drop splitting.start = before.drop splitting.start ++ [unit] :=
      List.drop_append_of_le_length hstart
    have hrun : ∀ next : Splitting, next.start ≤ before.length + 1 →
        ((rest.zipIdx (before.length + 1)).foldl
            (splitStep (before ++ unit :: rest) delimiter trackAngles) next).values ++
          [(before ++ unit :: rest).drop ((rest.zipIdx (before.length + 1)).foldl
            (splitStep (before ++ unit :: rest) delimiter trackAngles) next).start] =
        next.values ++ cut (scanUnit delimiter trackAngles) .idle
          ⟨next.quoted, next.angle,
            unit = backslash && !isEscaped (before ++ unit :: rest) before.length⟩
          ((before ++ [unit]).drop next.start) rest := by
      intro next hnext
      have hlength : before.length + 1 = (before ++ [unit]).length := by simp
      have hwhole : before ++ unit :: rest = before ++ [unit] ++ rest := List.append_cons ..
      rw [← isEscaped_next, hwhole, hlength]
      exact ih next (hlength ▸ hnext)
    have hplain : unit ≠ backslash →
        (unit = backslash && !isEscaped (before ++ unit :: rest) before.length) = false := by
      intro h
      rw [decide_eq_false h]
      rfl
    rw [List.zipIdx_cons, List.foldl_cons]
    by_cases hquote : unit = quotationMark ∧
        isEscaped (before ++ unit :: rest) before.length = false
    · have hnot := hplain (by rw [hquote.1]; decide)
      rw [splitStep, if_pos hquote]
      refine (hrun _ ?_).trans ?_
      · exact Nat.le_succ_of_le hstart
      rw [hnot, hdrop, cut, scanUnit, if_pos hquote]
    by_cases hopen : trackAngles ∧ splitting.quoted = false ∧ unit = lessThan
    · have hnot := hplain (by rw [hopen.2.2]; decide)
      rw [splitStep, if_neg hquote, if_pos hopen]
      refine (hrun _ ?_).trans ?_
      · exact Nat.le_succ_of_le hstart
      rw [hnot, hdrop, cut, scanUnit, if_neg hquote, if_pos hopen]
    by_cases hclose : trackAngles ∧ splitting.quoted = false ∧ unit = greaterThan
    · have hnot := hplain (by rw [hclose.2.2]; decide)
      rw [splitStep, if_neg hquote, if_neg hopen, if_pos hclose]
      refine (hrun _ ?_).trans ?_
      · exact Nat.le_succ_of_le hstart
      rw [hnot, hdrop, cut, scanUnit, if_neg hquote, if_neg hopen, if_pos hclose]
    by_cases hcut : splitting.quoted = false ∧ splitting.angle = false ∧ unit = delimiter
    · obtain ⟨hquoted, hangle, rfl⟩ := hcut
      have hnot := hplain hdelimiter
      have hpiece : ((before ++ unit :: rest).take before.length).drop splitting.start =
          before.drop splitting.start := by rw [List.take_left]
      have hnone : (before ++ [unit]).drop (before.length + 1) = [] := by simp
      rw [splitStep, if_neg hquote, if_neg hopen, if_neg hclose, if_pos ⟨hquoted, hangle, rfl⟩]
      refine (hrun _ ?_).trans ?_
      · exact le_rfl
      rw [hnot, hpiece, hnone, cut, scanUnit, if_neg hquote, if_neg hopen, if_neg hclose,
        if_pos ⟨hquoted, hangle, rfl⟩, List.append_assoc, hquoted, hangle]
      rfl
    · rw [splitStep, if_neg hquote, if_neg hopen, if_neg hclose, if_neg hcut]
      refine (hrun _ ?_).trans ?_
      · exact Nat.le_succ_of_le hstart
      rw [hdrop, cut, scanUnit, if_neg hquote, if_neg hopen, if_neg hclose, if_neg hcut]

theorem splitOutsideQuotedString_eq (hdelimiter : delimiter ≠ backslash) (value : Text) :
    splitOutsideQuotedString value delimiter trackAngles =
      cut (scanUnit delimiter trackAngles) .idle .idle [] value :=
  splitLoop_eq hdelimiter ⟨[], 0, false, false⟩ (Nat.zero_le ([] : Text).length)

end Bdp.LinkHeader
