import Bdp.Library.JsonGrammar

/-!
# Doubles as rational numbers

The finite binary64 values as a set of rationals, and what a correctly rounding reader and a
round-trip writer of decimal texts promise about them.
-/

namespace Bdp

open JsonGrammar

namespace JsonGrammar

/-- The exponent of a number, an integer. -/
def ExponentPart.power (part : ExponentPart) : ℤ :=
  if part.sign = some 45 then -(Decimal.value part.digits : ℤ) else Decimal.value part.digits

def NumberParts.power (parts : NumberParts) : ℤ := (parts.exponent.map ExponentPart.power).getD 0

/-- The rational number that a lexeme denotes. -/
def NumberParts.value (parts : NumberParts) : ℚ :=
  Decimal.signed parts.negative (Decimal.value (parts.integer ++ parts.fraction))
    (parts.power - parts.fraction.length)

end JsonGrammar

/-- The finite binary64 values; both zeros are zero. -/
def IsDouble (number : ℚ) : Prop :=
  ∃ significand exponent : ℤ, |significand| < 2 ^ 53 ∧ -1074 ≤ exponent ∧ exponent ≤ 971 ∧
    number = significand * 2 ^ exponent

/-- From here on numbers round to an infinity. -/
def overflowBound : ℚ := 2 ^ 1024 - 2 ^ 970

/-- The conversions between decimal texts and doubles of a language. -/
structure Numbers where
  /-- The double nearest to a number, none when it is an infinity. -/
  nearest : ℚ → Option ℚ
  /-- The decimal text that a finite double is written as. -/
  shortest : ℚ → Text

/-- Correct rounding, and writing by short lexemes that are read back. -/
structure Numbers.Lawful (numbers : Numbers) : Prop where
  double : ∀ number rounded, numbers.nearest number = some rounded → IsDouble rounded
  closest : ∀ number rounded, numbers.nearest number = some rounded →
    ∀ other, IsDouble other → |number - rounded| ≤ |number - other|
  overflow : ∀ number, numbers.nearest number = none ↔ overflowBound ≤ |number|
  lexeme : ∀ number, IsDouble number → ∃ parts : NumberParts, parts.Valid ∧
    numbers.shortest number = parts.text ∧ parts.text.length ≤ 2 ^ 12 ∧ |parts.power| ≤ 2 ^ 12
  roundTrip : ∀ number, IsDouble number → ∀ parts : NumberParts, parts.Valid →
    numbers.shortest number = parts.text → numbers.nearest parts.value = some number

section Doubles

theorem isDouble_int {number : ℤ} (h : |number| ≤ 2 ^ 53) : IsDouble number := by
  rcases lt_or_eq_of_le h with hlt | heq
  · exact ⟨number, 0, hlt, by norm_num, by norm_num, by simp⟩
  · rcases (abs_eq (by positivity)).mp heq with rfl | rfl
    · exact ⟨2 ^ 52, 1, by norm_num, by norm_num, by norm_num, by norm_num⟩
    · exact ⟨-2 ^ 52, 1, by norm_num, by norm_num, by norm_num, by norm_num⟩

variable {exponent : ℕ}

theorem isDouble_pow (h : exponent ≤ 54) : IsDouble (2 ^ exponent) := by
  refine ⟨1, exponent, by norm_num, by omega, by omega, ?_⟩
  rw [zpow_natCast, Int.cast_one, one_mul]

theorem isDouble_neg_pow (h : exponent ≤ 54) : IsDouble (-2 ^ exponent) := by
  refine ⟨-1, exponent, by norm_num, by omega, by omega, ?_⟩
  rw [zpow_natCast]
  norm_num

theorem IsDouble.abs_lt {number : ℚ} (h : IsDouble number) : |number| < overflowBound := by
  obtain ⟨significand, exponent, hsignificand, _, hexponent, rfl⟩ := h
  have hcast : |(significand : ℚ)| ≤ 2 ^ 53 - 1 := by
    have : |significand| ≤ 2 ^ 53 - 1 := by omega
    exact_mod_cast this
  have hpower : (2 : ℚ) ^ exponent ≤ 2 ^ (971 : ℤ) := zpow_le_zpow_right₀ (by norm_num) hexponent
  have hpos : (0 : ℚ) < 2 ^ exponent := by positivity
  calc |(significand : ℚ) * 2 ^ exponent| = |(significand : ℚ)| * 2 ^ exponent := by
        rw [abs_mul, abs_of_pos hpos]
    _ ≤ (2 ^ 53 - 1) * 2 ^ (971 : ℤ) := mul_le_mul hcast hpower hpos.le (by norm_num)
    _ < overflowBound := by
        have hunit : (0 : ℚ) < 2 ^ 970 := by positivity
        have hlow : (2 : ℚ) ^ (971 : ℤ) = 2 * 2 ^ 970 := by
          rw [← pow_succ']
          rfl
        have hhigh : (2 : ℚ) ^ 1024 = 2 ^ 54 * 2 ^ 970 := by rw [← pow_add]
        rw [overflowBound, hlow, hhigh]
        generalize (2 : ℚ) ^ 970 = unit at hunit ⊢
        norm_num
        linarith

theorem finite_doubles : {number : ℚ | IsDouble number}.Finite := by
  have hrange : ((Set.Ioo (-2 ^ 53 : ℤ) (2 ^ 53)) ×ˢ Set.Icc (-1074 : ℤ) 971).Finite :=
    (Set.finite_Ioo _ _).prod (Set.finite_Icc _ _)
  apply (hrange.image fun pair ↦ (pair.1 : ℚ) * 2 ^ pair.2).subset
  rintro number ⟨significand, exponent, hsignificand, hlow, hhigh, rfl⟩
  have := abs_lt.mp hsignificand
  exact ⟨(significand, exponent), ⟨⟨this.1, this.2⟩, ⟨hlow, hhigh⟩⟩, rfl⟩

variable {numbers : Numbers}

namespace Numbers.Lawful

variable {number : ℚ}

section

variable (lawful : numbers.Lawful)
include lawful

/-- A double is its own nearest double. -/
theorem nearest_double (h : IsDouble number) : numbers.nearest number = some number := by
  cases hnearest : numbers.nearest number with
  | none =>
    have := (lawful.overflow number).mp hnearest
    exact absurd h.abs_lt (not_lt.mpr this)
  | some rounded =>
    have hclose := lawful.closest number rounded hnearest number h
    rw [sub_self, abs_zero] at hclose
    have := abs_eq_zero.mp (le_antisymm hclose (abs_nonneg _))
    rw [sub_eq_zero.mp this]

theorem nearest_int {number : ℤ} (h : |number| ≤ 2 ^ 53) :
    numbers.nearest number = some (number : ℚ) :=
  lawful.nearest_double (isDouble_int h)

variable {rounded bound : ℚ}

/-- Rounding does not pass a double from below. -/
theorem le_of_nearest (hbound : IsDouble bound)
    (h : bound ≤ number) (hnearest : numbers.nearest number = some rounded) : bound ≤ rounded := by
  by_contra hlt
  push Not at hlt
  have hclose := lawful.closest number rounded hnearest bound hbound
  rw [abs_of_nonneg (by linarith), abs_of_nonneg (by linarith)] at hclose
  linarith

theorem nearest_le (hbound : IsDouble bound)
    (h : number ≤ bound) (hnearest : numbers.nearest number = some rounded) : rounded ≤ bound := by
  by_contra hlt
  push Not at hlt
  have hclose := lawful.closest number rounded hnearest bound hbound
  rw [abs_of_nonpos (by linarith), abs_of_nonpos (by linarith)] at hclose
  linarith

/-- Doubles are told apart by the texts they are written as. -/
theorem shortest_injective {left right : ℚ} (hleft : IsDouble left)
    (hright : IsDouble right) (h : numbers.shortest left = numbers.shortest right) :
    left = right := by
  obtain ⟨parts, hvalid, htext, _, _⟩ := lawful.lexeme left hleft
  have hread := lawful.roundTrip left hleft parts hvalid htext
  rw [lawful.roundTrip right hright parts hvalid (h ▸ htext)] at hread
  exact (Option.some.inj hread).symm

end

end Numbers.Lawful

end Doubles

end Bdp
