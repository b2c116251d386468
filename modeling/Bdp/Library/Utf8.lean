import Bdp.Library.JsonTree

/-!
# The UTF-8 length of a text

The number of bytes that an encoder writes for a text of UTF-16 code units: a pair of surrogates
takes four, a lone one is replaced. Lengths add up at every unit that is no surrogate.
-/

namespace Bdp.CodeUnits

/-- The bytes of a code unit that is not part of a pair; a lone surrogate becomes U+FFFD. -/
def unitBytes (unit : ℕ) : ℕ := if unit < 0x80 then 1 else if unit < 0x800 then 2 else 3

/-- The length of the encoded text. -/
def utf8Length : Text → ℕ
  | [] => 0
  | [unit] => unitBytes unit
  | unit :: next :: rest =>
    if isHigh unit ∧ isLow next then 4 + utf8Length rest
    else unitBytes unit + utf8Length (next :: rest)

variable {unit : ℕ}

theorem unitBytes_of_lt (h : unit < 0x80) : unitBytes unit = 1 := if_pos h

/-- A unit that is no high surrogate is encoded by itself. -/
theorem utf8Length_cons (h : isHigh unit = false) (rest : Text) :
    utf8Length (unit :: rest) = unitBytes unit + utf8Length rest := by
  cases rest with
  | nil => rfl
  | cons next rest => simp [utf8Length, h]

theorem isHigh_of_lt (h : unit < 0x80) : isHigh unit = false := by
  simp only [isHigh, decide_eq_false_iff_not]
  omega

theorem utf8Length_ascii (h : unit < 0x80) (rest : Text) :
    utf8Length (unit :: rest) = 1 + utf8Length rest := by
  rw [utf8Length_cons (isHigh_of_lt h), unitBytes_of_lt h]

/-- Lengths add up where no low surrogate follows. -/
theorem utf8Length_append (text : Text) {rest : Text}
    (h : ∀ unit ∈ rest.head?, isLow unit = false) :
    utf8Length (text ++ rest) = utf8Length text + utf8Length rest := by
  fun_induction utf8Length text with
  | case1 => simp
  | case2 unit =>
    cases rest with
    | nil => rfl
    | cons next rest => simp [utf8Length, h next rfl]
  | case3 unit next tail hpair ih =>
    rw [List.cons_append, List.cons_append, utf8Length, if_pos hpair, ih, Nat.add_assoc]
  | case4 unit next tail hpair ih =>
    rw [List.cons_append, List.cons_append, utf8Length, if_neg hpair, ← List.cons_append, ih,
      Nat.add_assoc]

theorem utf8Length_append_ascii (text : Text) (h : unit < 0x80) (rest : Text) :
    utf8Length (text ++ unit :: rest) = utf8Length text + 1 + utf8Length rest := by
  rw [utf8Length_append text, utf8Length_ascii h, Nat.add_assoc]
  rintro _ ⟨⟩
  simp only [isLow, decide_eq_false_iff_not]
  omega

/-- The items of a list take a comma between them. -/
theorem utf8Length_commas (texts : List Text) :
    utf8Length (JsonTree.commas texts) = (texts.map utf8Length).sum + (texts.length - 1) := by
  fun_induction JsonTree.commas texts with
  | case1 => rfl
  | case2 text => simp
  | case3 text next rest ih =>
    rw [utf8Length_append_ascii text (by decide), ih]
    simp only [List.map_cons, List.sum_cons, List.length_cons]
    omega

/-- The text of an array takes two brackets more. -/
theorem utf8Length_brackets {opening closing : ℕ} (hopening : opening < 0x80)
    (hclosing : closing < 0x80) (texts : List Text) :
    utf8Length (opening :: (JsonTree.commas texts ++ [closing])) =
      (texts.map utf8Length).sum + (texts.length - 1) + 2 := by
  rw [utf8Length_ascii hopening, utf8Length_append_ascii _ hclosing, utf8Length_commas]
  simp only [utf8Length]
  omega

end Bdp.CodeUnits
