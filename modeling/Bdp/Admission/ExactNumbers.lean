import Bdp.Admission.Lexemes
import Bdp.Library.Doubles

/-!
# A lawful conversion of numbers

Rounding to a closest double, and writing a double by its full decimal expansion. The conversion
keeps the laws that numeric admission rests on, and agrees with an engine on the integers that it
writes without an exponent.
-/

namespace Bdp.Admission

open JsonGrammar

theorem exists_closest (number : ℚ) : ∃ rounded, IsDouble rounded ∧
      ∀ other, IsDouble other → |number - rounded| ≤ |number - other| :=
  Set.exists_min_image {number | IsDouble number} (fun rounded ↦ |number - rounded|) finite_doubles
    ⟨0, 0, 0, by norm_num, by norm_num, by norm_num, by norm_num⟩

open Classical in
/-- A double closest to a number, unless the number rounds to an infinity. -/
noncomputable def closestDouble (number : ℚ) : Option ℚ :=
  if overflowBound ≤ |number| then none else some (Classical.choose (exists_closest number))

/-- The binary exponent of a denominator that is a power of two. -/
def denominatorPower (number : ℚ) : ℕ := Nat.log 2 number.den

/-- The full decimal expansion of a double. -/
def expansion (number : ℚ) : NumberParts where
  negative := decide (number < 0)
  integer := Decimal.digitsOf (number.num.natAbs * 5 ^ denominatorPower number)
  fraction := []
  exponent :=
    if denominatorPower number = 0 then none
    else some ⟨101, some 45, Decimal.digitsOf (denominatorPower number)⟩

noncomputable def exactNumbers : Numbers where
  nearest := closestDouble
  shortest number := (expansion number).text

theorem isInteger_digitsOf (number : ℕ) : IsInteger (Decimal.digitsOf number) := by
  by_cases h : number = 0
  · exact .inl (by simp [Decimal.digitsOf, h])
  · have hleading := Decimal.leading_digitsOf h
    cases hdigits : Decimal.digitsOf number with
    | nil => exact absurd hdigits (Decimal.digitsOf_ne_nil number)
    | cons first rest =>
      rw [hdigits] at hleading
      have hfirst := hleading.1 first List.mem_cons_self
      have hzero : first ≠ 48 := fun h ↦ hleading.2 (by simp [h])
      simp only [Decimal.isDigit, decide_eq_true_eq] at hfirst
      exact .inr ⟨first, rest, rfl, by omega, hfirst.2,
        fun digit hdigit ↦ hleading.1 digit (List.mem_cons_of_mem _ hdigit)⟩

theorem expansion_valid (number : ℚ) : (expansion number).Valid where
  integer := isInteger_digitsOf _
  fraction := by simp [Digits, expansion]
  exponent := by
    intro part hpart
    unfold expansion at hpart
    split at hpart
    · cases hpart
    · obtain rfl := Option.some.inj hpart
      exact ⟨.inl rfl, by simp, Decimal.isDigit_digitsOf _, Decimal.digitsOf_ne_nil _⟩

theorem den_dvd_pow {significand exponent : ℤ} {limit : ℕ} (h : -(limit : ℤ) ≤ exponent) :
    ((significand : ℚ) * 2 ^ exponent).den ∣ 2 ^ limit := by
  obtain ⟨gap, hgap⟩ := Int.eq_ofNat_of_zero_le (by omega : 0 ≤ exponent + limit)
  have hnumber : (significand : ℚ) * 2 ^ exponent =
      Rat.divInt (significand * 2 ^ gap) ((2 ^ limit : ℕ) : ℤ) := by
    have hexponent : exponent = (gap : ℤ) + -(limit : ℤ) := by omega
    rw [Rat.divInt_eq_div, hexponent, zpow_add₀ (by norm_num), zpow_natCast, zpow_neg, zpow_natCast]
    push_cast
    ring
  rw [hnumber]
  exact Int.natCast_dvd_natCast.mp (Rat.den_dvd (significand * 2 ^ gap) _)

variable {number : ℚ}

theorem den_of_double (h : IsDouble number) :
    number.den = 2 ^ denominatorPower number ∧ denominatorPower number ≤ 1074 := by
  obtain ⟨significand, exponent, _, hlow, _, rfl⟩ := h
  obtain ⟨power, hpower, hden⟩ := (Nat.dvd_prime_pow Nat.prime_two).mp
    (@den_dvd_pow significand exponent 1074 hlow)
  rw [denominatorPower, hden, Nat.log_pow (by norm_num)]
  exact ⟨rfl, hpower⟩

theorem expansion_power (number : ℚ) :
    (expansion number).power = -(denominatorPower number : ℤ) := by
  unfold NumberParts.power expansion
  by_cases h : denominatorPower number = 0
  · simp [h]
  · simp [h, ExponentPart.power]

section

variable (h : IsDouble number)
include h

theorem expansion_scaled : ((number.num.natAbs * 5 ^ denominatorPower number : ℕ) : ℚ) =
      |number| * 10 ^ denominatorPower number := by
  obtain ⟨hden, _⟩ := den_of_double h
  have hnum : |number| * 2 ^ denominatorPower number = number.num.natAbs := by
    have := Rat.num_div_den |number|
    rw [Rat.num_abs_eq_abs_num, Rat.den_abs_eq_den] at this
    rw [← this, hden]
    push_cast
    rw [div_mul_cancel₀ _ (by positivity)]
    rw [Nat.cast_natAbs, Int.cast_abs]
  calc ((number.num.natAbs * 5 ^ denominatorPower number : ℕ) : ℚ)
      = number.num.natAbs * 5 ^ denominatorPower number := by push_cast; rfl
    _ = |number| * (2 ^ denominatorPower number * 5 ^ denominatorPower number) := by
        rw [← hnum]
        ring
    _ = |number| * 10 ^ denominatorPower number := by
        rw [← mul_pow]
        norm_num

theorem expansion_value : (expansion number).value = number := by
  have hscaled := expansion_scaled h
  have hpower : (10 : ℚ) ^ denominatorPower number ≠ 0 := by positivity
  rw [NumberParts.value, expansion_power]
  simp only [expansion, List.append_nil, Decimal.value_digitsOf, List.length_nil, Nat.cast_zero,
    sub_zero, Decimal.signed, hscaled, zpow_neg, zpow_natCast, decide_eq_true_eq]
  rw [mul_assoc, mul_inv_cancel₀ hpower, mul_one]
  by_cases hneg : number < 0
  · rw [if_pos hneg, abs_of_neg hneg]
    ring
  · rw [if_neg hneg, abs_of_nonneg (not_lt.mp hneg), one_mul]

theorem expansion_length : (expansion number).text.length ≤ 2 ^ 12 := by
  obtain ⟨_, hpower⟩ := den_of_double h
  have hsmall : number.num.natAbs * 5 ^ denominatorPower number < 10 ^ (1024 + 1074) := by
    have hlt : |number| < 10 ^ 1024 := by
      calc |number| < overflowBound := h.abs_lt
        _ ≤ 2 ^ 1024 := sub_le_self _ (by positivity)
        _ ≤ 10 ^ 1024 := pow_le_pow_left₀ (by norm_num) (by norm_num) _
    have hten : (10 : ℚ) ^ denominatorPower number ≤ 10 ^ 1074 :=
      pow_le_pow_right₀ (by norm_num) hpower
    have : ((number.num.natAbs * 5 ^ denominatorPower number : ℕ) : ℚ) <
        ((10 ^ (1024 + 1074) : ℕ) : ℚ) := by
      rw [expansion_scaled h, Nat.cast_pow, Nat.cast_ofNat, pow_add]
      calc |number| * 10 ^ denominatorPower number
          ≤ |number| * 10 ^ 1074 := mul_le_mul_of_nonneg_left hten (abs_nonneg _)
        _ < 10 ^ 1024 * 10 ^ 1074 := mul_lt_mul_of_pos_right hlt (by positivity)
    exact Nat.cast_lt.mp this
  have hdigits := Decimal.length_digitsOf_le (by norm_num) hsmall
  have hexponent : (Decimal.digitsOf (denominatorPower number)).length ≤ 4 :=
    Decimal.length_digitsOf_le (by norm_num) (by omega)
  have hsign : (minusText (decide (number < 0))).length ≤ 1 := by
    unfold minusText
    split <;> simp
  have hpart : (exponentText (expansion number).exponent).length ≤ 6 := by
    unfold expansion
    by_cases hzero : denominatorPower number = 0
    · simp [hzero, exponentText]
    · simp only [hzero, if_false, exponentText, Option.map_some, Option.getD_some,
        ExponentPart.text, List.length_cons, List.length_append, Option.toList_some,
        List.length_nil]
      omega
  have hlength : (expansion number).text.length = (minusText (decide (number < 0))).length +
        ((Decimal.digitsOf (number.num.natAbs * 5 ^ denominatorPower number)).length +
          (exponentText (expansion number).exponent).length) := by
    simp [NumberParts.text, expansion, fractionText]
  rw [hlength]
  omega

end

theorem exactNumbers_lawful : exactNumbers.Lawful where
  double := by
    intro number rounded h
    simp only [exactNumbers, closestDouble] at h
    split at h
    · cases h
    · obtain rfl := Option.some.inj h
      exact (Classical.choose_spec (exists_closest number)).1
  closest := by
    intro number rounded h
    simp only [exactNumbers, closestDouble] at h
    split at h
    · cases h
    · obtain rfl := Option.some.inj h
      exact (Classical.choose_spec (exists_closest number)).2
  overflow := by
    intro number
    simp only [exactNumbers, closestDouble]
    split <;> simp_all
  lexeme := by
    intro number h
    refine ⟨expansion number, expansion_valid number, rfl, expansion_length h, ?_⟩
    have := (den_of_double h).2
    rw [expansion_power, abs_neg, abs_of_nonneg (Int.natCast_nonneg _)]
    omega
  roundTrip := by
    intro number h parts hvalid htext
    have hparts : some (expansion number) = some parts := by
      rw [← numberParts_text (expansion_valid number), ← numberParts_text hvalid, ← htext]
      rfl
    obtain rfl := Option.some.inj hparts
    rw [expansion_value h]
    have hbound : ¬ overflowBound ≤ |number| := not_le.mpr h.abs_lt
    simp only [exactNumbers, closestDouble, if_neg hbound, Option.some.injEq]
    have hclose := (Classical.choose_spec (exists_closest number)).2 number h
    rw [sub_self, abs_zero] at hclose
    have := abs_eq_zero.mp (le_antisymm hclose (abs_nonneg _))
    exact (sub_eq_zero.mp this).symm

end Bdp.Admission
