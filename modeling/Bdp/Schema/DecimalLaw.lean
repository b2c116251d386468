import Bdp.Schema.Arithmetic

/-!
# Exact decimals

A decimal denotes a rational number: zero, or a coefficient that is no multiple of ten at a power
of ten. The decimal of a lexeme denotes the number of the lexeme, and comparison, integrality and
divisibility of decimals are those of the numbers.
-/

namespace Bdp.Schema

open Admission JsonGrammar
open Bdp.Decimal (isDigit integerText isDigit_digitsOf value_digitsOf)

/-- The number that a decimal stands for, in its normal form. -/
inductive Denotes (a : Decimal) : ℚ → Prop
  | zero (coefficient : a.coefficient = [48]) (negative : a.negative = false) : Denotes a 0
  | scaled {exponent : ℤ} (text : a.exponent = Decimal.integerText exponent)
      (leading : Decimal.Leading a.coefficient) (normal : ¬ 10 ∣ Decimal.value a.coefficient) :
      Denotes a (Decimal.signed a.negative (Decimal.value a.coefficient) exponent)

variable {a : Decimal}

section Literals

theorem strip_eq_dropZeros {s : Text} (h : Digits s) (hne : s ≠ []) :
    strip s = if Decimal.dropZeros s = [] then [48] else Decimal.dropZeros s := by
  rw [strip_eq h hne]
  split
  · next hzero => exact digitsOf_eq_zero_iff.mpr ((Decimal.value_eq_zero_iff h).mpr hzero)
  · next hzero =>
    rw [← Decimal.value_dropZeros]
    exact ((Decimal.leading_dropZeros h).eq_digitsOf hzero).symm

variable {parts : NumberParts}

theorem restAfter_marker (h : parts.Valid) : IsSigned (restAfter isMarker
        (parts.integer ++ (fractionText parts.fraction ++ exponentText parts.exponent)) [48]) ∧
      exponentValue (restAfter isMarker
        (parts.integer ++ (fractionText parts.fraction ++ exponentText parts.exponent)) [48]) =
        parts.power := by
  unfold restAfter
  rw [(span_marker h).2]
  cases hexponent : parts.exponent with
  | none =>
    have hzero : Digits [48] := by simp [Digits, isDigit]
    refine ⟨isSigned_digits hzero (List.cons_ne_nil 48 []), ?_⟩
    simp [exponentText, exponentValue, NumberParts.power, hexponent, Decimal.value]
  | some part =>
    have hvalid := h.exponent part (by simp [hexponent])
    simp only [exponentText, Option.map_some, Option.getD_some, ExponentPart.text,
      NumberParts.power, hexponent, ExponentPart.power]
    cases hsign : part.sign with
    | some sign =>
      rcases hvalid.sign sign (by simp [hsign]) with rfl | rfl
      · exact ⟨⟨[43], _, rfl, .inr (.inl rfl), hvalid.digits, hvalid.nonempty⟩,
          by simp [exponentValue]⟩
      · exact ⟨⟨[45], _, rfl, .inr (.inr rfl), hvalid.digits, hvalid.nonempty⟩,
          by simp [exponentValue]⟩
    | none =>
      exact ⟨isSigned_digits hvalid.digits hvalid.nonempty,
        by simpa using exponentValue_digits hvalid.digits⟩

theorem restAfter_point (h : parts.Valid) :
    restAfter (· == 46) (parts.integer ++ fractionText parts.fraction) [] = parts.fraction := by
  unfold restAfter
  rw [(span_point h).2]
  unfold fractionText
  split
  · next hempty =>
    split at hempty
    · next hnil => exact hnil.symm
    · cases hempty
  · next unit rest hrest =>
    split at hrest
    · cases hrest
    · exact (List.cons.inj hrest).2.symm

theorem erase_point (h : parts.Valid) :
    (parts.integer ++ fractionText parts.fraction).erase 46 = parts.integer ++ parts.fraction := by
  have hpoint : 46 ∉ parts.integer := by
    intro hmem
    have := digits_integer h.integer 46 hmem
    simp [isDigit] at this
  rw [List.erase_append_right _ hpoint, fractionText]
  split
  · next hnil => simp [hnil]
  · simp

theorem decimal_denotes {literal : Text} {coefficientLimit : ℕ}
    (hparts : numberParts literal = some parts)
    (ha : decimal literal coefficientLimit = .ok a) : Denotes a parts.value := by
  obtain ⟨h, rfl⟩ := numberParts_sound hparts
  obtain ⟨hpower, hpowerValue⟩ := restAfter_marker h
  have hstrip := strip_eq_dropZeros (digits_append h)
    (List.append_ne_nil_of_left_ne_nil (integer_ne_nil h.integer) _)
  rw [← significant] at hstrip
  simp only [decimal, (head_text h).1, (head_text h).2, (span_marker h).1, restAfter_point h,
    erase_point h, hstrip] at ha
  split at ha
  · cases ha
  · by_cases hzero : significant parts = []
    · rw [if_pos hzero, if_pos rfl] at ha
      obtain rfl := Except.ok.inj ha
      rw [(value_eq_zero_iff h).mpr hzero]
      exact .zero rfl rfl
    · have hleading := Decimal.leading_dropZeros (digits_append h)
      have hnotZero : significant parts ≠ [48] := fun heq ↦ hleading.2 (by
        rw [← significant, heq]
        rfl)
      rw [if_neg hzero, if_neg hnotZero] at ha
      obtain rfl := Except.ok.inj ha
      rw [value_eq_coefficient]
      refine .scaled ?_ (leading_coefficient h) (not_dvd_coefficient h hzero)
      rw [addInteger_eq hpower (isSigned_integerText _), hpowerValue, addInteger_eq
        (isSigned_integerText _) (isSigned_integerText _)]
      simp only [exponentValue_integerText, scale]
      congr 1

theorem decimal_total (literal : Text) {coefficientLimit : ℕ}
    (h : max 1 (sourceDigits ((if literal.head? == some 45 then literal.tail else literal).takeWhile
      fun unit ↦ !isMarker unit)) ≤ coefficientLimit) :
    ∃ a, decimal literal coefficientLimit = .ok a := by
  simp only [decimal, if_neg (not_lt.mpr h)]
  generalize (if literal.head? == some 45 then literal.tail else literal) = text
  split
  · exact ⟨_, rfl⟩
  · exact ⟨_, rfl⟩

end Literals

variable {b : Decimal}

section Comparison

theorem compareDigits_eq (x y : Text) (hx : Digits x) (hy : Digits y) : compareDigits x y =
      (SignType.sign (Decimal.fraction x - Decimal.fraction y) : ℤ) := by
  have hless : ∀ (small large : ℕ) {low high : ℚ}, small < large → low < 1 → 0 ≤ high →
      ((small : ℚ) + low) / 10 < ((large : ℚ) + high) / 10 := by
    intro small large low high hlt hlow hhigh
    have hcast : (small : ℚ) + 1 ≤ large := by exact_mod_cast hlt
    linarith
  have hsame : ∀ (digit : ℕ) (low high : ℚ),
      SignType.sign (((digit : ℚ) + low) / 10 - ((digit : ℚ) + high) / 10) =
        SignType.sign (low - high) := by
    intro digit low high
    rw [show ((digit : ℚ) + low) / 10 - ((digit : ℚ) + high) / 10 = 1 / 10 * (low - high) by ring,
      sign_mul, sign_pos (by norm_num), one_mul]
  fun_induction compareDigits x y with
  | case1 => simp
  | case2 x xs hne hlt =>
    have := digit_bounds hx
    omega
  | case3 x xs hne hlt =>
    have hdigit := digit_bounds hx
    have := hless 0 (x - 48) (by omega) zero_lt_one (Decimal.fraction_nonneg xs)
    rw [Decimal.fraction_cons, Decimal.fraction_nil, sign_pos (by simpa using this)]
    rfl
  | case4 x xs hzero ih =>
    obtain rfl := not_not.mp hzero
    rw [ih (digits_tail hx) hy, Decimal.fraction_cons, ← hsame 0]
    simp
  | case5 y ys hne hlt =>
    have hdigit := digit_bounds hy
    have := hless 0 (y - 48) (by omega) zero_lt_one (Decimal.fraction_nonneg ys)
    rw [Decimal.fraction_cons, Decimal.fraction_nil, sign_neg (by simpa using this)]
    rfl
  | case6 y ys hne hlt =>
    have := digit_bounds hy
    omega
  | case7 y ys hzero ih =>
    obtain rfl := not_not.mp hzero
    rw [ih hx (digits_tail hy), Decimal.fraction_cons, ← hsame 0]
    simp
  | case8 x xs y ys hne hlt =>
    have hxdigit := digit_bounds hx
    have := hless (x - 48) (y - 48) (by omega)
      (Decimal.fraction_lt_one (digits_tail hx)) (Decimal.fraction_nonneg ys)
    rw [Decimal.fraction_cons, Decimal.fraction_cons, sign_neg (sub_neg.mpr this)]
    rfl
  | case9 x xs y ys hne hlt =>
    have hydigit := digit_bounds hy
    have := hless (y - 48) (x - 48) (by omega)
      (Decimal.fraction_lt_one (digits_tail hy)) (Decimal.fraction_nonneg xs)
    rw [Decimal.fraction_cons, Decimal.fraction_cons, sign_pos (sub_pos.mpr this)]
    rfl
  | case10 x xs y ys hequal ih =>
    obtain rfl := not_not.mp hequal
    rw [ih (digits_tail hx) (digits_tail hy), Decimal.fraction_cons, Decimal.fraction_cons, hsame]

theorem signed_eq_fraction (negative : Bool) (digits : Text) (exponent : ℤ) :
    Decimal.signed negative (Decimal.value digits) exponent = (if negative then -1 else 1) *
        (Decimal.fraction digits * 10 ^ (exponent + (digits.length : ℤ))) := by
  rw [Decimal.signed, Decimal.value_mul_zpow]

variable {digits : Text}

section

variable (h : ¬ 10 ∣ Decimal.value digits)
include h

theorem ne_nil_of_normal : digits ≠ [] := by
  rintro rfl
  exact h (dvd_zero 10)

theorem ne_zero_of_normal : digits ≠ [48] := by
  rintro rfl
  exact h (dvd_zero 10)

theorem signed_false_pos (exponent : ℤ) :
    0 < Decimal.signed false (Decimal.value digits) exponent := by
  have hpositive : 0 < Decimal.value digits :=
    Nat.pos_of_ne_zero fun hzero ↦ h (hzero ▸ dvd_zero 10)
  simp only [Decimal.signed, Bool.false_eq_true, if_false, one_mul]
  positivity

end

theorem signed_true (digits : Text) (exponent : ℤ) :
    Decimal.signed true (Decimal.value digits) exponent =
      -Decimal.signed false (Decimal.value digits) exponent := by
  simp [Decimal.signed]

theorem sign_signed {negative : Bool} (h : ¬ 10 ∣ Decimal.value digits) (exponent : ℤ) :
    SignType.sign (Decimal.signed negative (Decimal.value digits) exponent) =
      if negative then -1 else 1 := by
  have hpositive := signed_false_pos h exponent
  cases negative with
  | false => exact sign_pos hpositive
  | true =>
    rw [signed_true]
    exact sign_neg (neg_neg_of_pos hpositive)

theorem compare_scaled {x y : Text} (hx : Decimal.Leading x) (hy : Decimal.Leading y) (hxne : x ≠ [])
    (hyne : y ≠ []) (e f : ℤ) :
    (if (e + x.length - (f + y.length)).sign = 0 then compareDigits x y
      else (e + x.length - (f + y.length)).sign) =
      (SignType.sign (Decimal.fraction x * 10 ^ (e + (x.length : ℤ)) -
        Decimal.fraction y * 10 ^ (f + (y.length : ℤ))) : ℤ) := by
  generalize e + (x.length : ℤ) = high
  generalize f + (y.length : ℤ) = low
  rcases lt_trichotomy high low with hlt | rfl | hgt
  · have := Decimal.fraction_mul_lt (Decimal.fraction_lt_one hx.1)
      (Decimal.tenth_le_fraction hy hyne) hlt
    rw [Int.sign_eq_neg_one_of_neg (by omega), sign_neg (sub_neg.mpr this)]
    rfl
  · have hpositive : (0 : ℚ) < 10 ^ high := by positivity
    rw [Int.sub_self, Int.sign_zero, if_pos rfl, ← sub_mul, sign_mul, sign_pos hpositive, mul_one,
      compareDigits_eq x y hx.1 hy.1]
  · have := Decimal.fraction_mul_lt (Decimal.fraction_lt_one hy.1)
      (Decimal.tenth_le_fraction hx hxne) hgt
    rw [Int.sign_eq_one_of_pos (by omega), sign_pos (sub_pos.mpr this)]
    rfl

theorem compareDecimal_eq {x y : ℚ} (ha : Denotes a x) (hb : Denotes b y) :
    compareDecimal a b = (SignType.sign (x - y) : ℤ) := by
  cases ha with
  | zero hcoefficient hnegative =>
    cases hb with
    | zero hcoefficient' hnegative' => simp [compareDecimal, hcoefficient, hcoefficient']
    | scaled htext' hleading' hnormal' =>
      have hne := ne_zero_of_normal hnormal'
      rw [zero_sub, Left.sign_neg, sign_signed hnormal']
      simp only [compareDecimal, hcoefficient, true_or, if_true, hne.symm, if_false]
      cases b.negative <;> rfl
  | @scaled exponent htext hleading hnormal =>
    have hne := ne_zero_of_normal hnormal
    cases hb with
    | zero hcoefficient' hnegative' =>
      rw [sub_zero, sign_signed hnormal]
      simp only [compareDecimal, hcoefficient', or_true, if_true, hne, if_false]
      cases a.negative <;> rfl
    | @scaled exponent' htext' hleading' hnormal' =>
      have hne' := ne_zero_of_normal hnormal'
      simp only [compareDecimal, hne, hne', or_self, if_false]
      by_cases hsign : a.negative = b.negative
      · rw [if_neg (not_not.mpr hsign), htext, htext',
          addInteger_eq (isSigned_integerText _) (isSigned_integerText _),
          addInteger_eq (isSigned_integerText _) (isSigned_integerText _),
          compareInteger_eq (isSigned_integerText _) (isSigned_integerText _)]
        simp only [exponentValue_integerText]
        rw [compare_scaled hleading hleading' (ne_nil_of_normal hnormal)
          (ne_nil_of_normal hnormal'), signed_eq_fraction, signed_eq_fraction, ← hsign, ← mul_sub]
        cases a.negative with
        | false => simp
        | true =>
          simp only [if_true]
          rw [neg_one_mul, Left.sign_neg, SignType.coe_neg, mul_neg_one]
      · rw [if_pos hsign]
        cases hnegative : a.negative with
        | false =>
          have hother : b.negative = true := by simpa [hnegative] using hsign
          have hleft := signed_false_pos hnormal exponent
          have hright := signed_false_pos hnormal' exponent'
          rw [hother, signed_true, sign_pos (by linarith)]
          rfl
        | true =>
          have hother : b.negative = false := by simpa [hnegative] using hsign
          have hleft := signed_false_pos hnormal exponent
          have hright := signed_false_pos hnormal' exponent'
          rw [hother, signed_true, sign_neg (by linarith)]
          rfl

end Comparison

section Division

theorem isInteger_iff {x : ℚ} (ha : Denotes a x) :
    isInteger a = true ↔ ∃ number : ℤ, x = number := by
  have hzero : IsSigned [48] := isSigned_digits (by simp [Digits, isDigit]) (List.cons_ne_nil 48 [])
  cases ha with
  | zero hcoefficient hnegative =>
    simp only [isInteger, hcoefficient, decide_true, Bool.true_or, true_iff]
    exact ⟨0, by simp⟩
  | @scaled exponent htext hleading hnormal =>
    have hvalue : exponentValue [48] = 0 := rfl
    simp only [isInteger, ne_zero_of_normal hnormal, decide_false, Bool.false_or,
      decide_eq_true_eq, htext, compareInteger_eq (isSigned_integerText exponent) hzero, hvalue,
      exponentValue_integerText, sub_zero, Int.sign_nonneg_iff]
    rw [← Decimal.isInt_mul_zpow_iff hnormal, Decimal.signed]
    cases a.negative with
    | false => simp
    | true =>
      simp only [if_true, neg_one_mul]
      constructor
      · rintro ⟨number, hnumber⟩
        exact ⟨-number, by rw [hnumber]; simp⟩
      · rintro ⟨number, hnumber⟩
        exact ⟨-number, by rw [← neg_eq_iff_eq_neg.mpr hnumber.symm]; simp⟩

theorem negate_exponent (exponent : ℤ) : let negated := if (integerText exponent).head? = some 45
      then (integerText exponent).tail else 45 :: integerText exponent
    IsSigned negated ∧ exponentValue negated = -exponent := by
  by_cases hnegative : exponent < 0
  · simp only [integerText, if_pos hnegative, List.head?_cons, if_true, List.tail_cons]
    refine ⟨isSigned_digits (isDigit_digitsOf _) (Decimal.digitsOf_ne_nil _), ?_⟩
    rw [exponentValue_digits (isDigit_digitsOf _), value_digitsOf]
    omega
  · have hhead : (Decimal.digitsOf exponent.natAbs).head? ≠ some 45 := by
      intro hhead
      have := isDigit_digitsOf _ 45 (List.mem_of_head? hhead)
      simp [isDigit] at this
    simp only [integerText, if_neg hnegative, hhead, if_false]
    refine ⟨⟨[45], _, rfl, .inr (.inr rfl), isDigit_digitsOf _, Decimal.digitsOf_ne_nil _⟩, ?_⟩
    rw [exponentValue, if_pos rfl, value_digitsOf]
    omega

theorem multipleOf_nonpositive (a : Decimal) {y : ℚ} (hb : Denotes b y) (h : y ≤ 0) :
    multipleOf a b = some (.error "nonpositive divisor") := by
  cases hb with
  | zero hcoefficient hnegative => simp [multipleOf, hcoefficient]
  | @scaled exponent htext hleading hnormal =>
    cases hnegative : b.negative with
    | false =>
      rw [hnegative] at h
      exact absurd h (not_le.mpr (signed_false_pos hnormal exponent))
    | true => simp [multipleOf, hnegative]

theorem exists_multiple_signed (negative : Bool) (digits : Text) (exponent : ℤ) (y : ℚ) :
    (∃ factor : ℤ, Decimal.signed negative (Decimal.value digits) exponent = factor * y) ↔
      ∃ factor : ℤ, (Decimal.value digits : ℚ) * 10 ^ exponent = factor * y := by
  cases negative with
  | false => simp [Decimal.signed]
  | true =>
    simp only [Decimal.signed, if_true, neg_one_mul]
    constructor
    · rintro ⟨factor, hfactor⟩
      exact ⟨-factor, by push_cast; linarith⟩
    · rintro ⟨factor, hfactor⟩
      exact ⟨-factor, by push_cast; linarith⟩

theorem multipleOf_positive {x y : ℚ} (ha : Denotes a x) (hb : Denotes b y) (h : 0 < y) :
    ∃ answer, multipleOf a b = some (.ok answer) ∧
      (answer = true ↔ ∃ factor : ℤ, x = factor * y) := by
  have hzeroSigned : IsSigned [48] :=
    isSigned_digits (by simp [Digits, isDigit]) (List.cons_ne_nil 48 [])
  have hzeroValue : exponentValue [48] = 0 := rfl
  cases hb with
  | zero hcoefficient hnegative => exact absurd h (lt_irrefl 0)
  | @scaled exponent htext hleading hnormal =>
    have hpositive : b.negative = false := by
      cases hnegative : b.negative with
      | false => rfl
      | true =>
        rw [hnegative, signed_true] at h
        have := signed_false_pos hnormal exponent
        linarith
    have hguard : ¬ (b.negative = true ∨ b.coefficient = [48]) := by
      simp [hpositive, ne_zero_of_normal hnormal]
    simp only [multipleOf, if_neg hguard]
    cases ha with
    | zero hcoefficient hnegative =>
      exact ⟨true, by simp [hcoefficient], by simp⟩
    | @scaled exponent' htext' hleading' hnormal' =>
      rw [if_neg (ne_zero_of_normal hnormal')]
      have hvalue : Decimal.value a.coefficient ≠ 0 := fun hzero ↦ hnormal' (hzero ▸ dvd_zero 10)
      have hvalue' : Decimal.value b.coefficient ≠ 0 := fun hzero ↦ hnormal (hzero ▸ dvd_zero 10)
      obtain ⟨rest, two, five, hfactor, hproduct, hcoprime⟩ := factor_eq hvalue
      obtain ⟨rest', two', five', hfactor', hproduct', hcoprime'⟩ := factor_eq hvalue'
      rw [← hleading'.eq_digitsOf (ne_nil_of_normal hnormal')] at hfactor
      rw [← hleading.eq_digitsOf (ne_nil_of_normal hnormal)] at hfactor'
      have hrest : 0 < rest' := by
        apply Nat.pos_of_ne_zero
        rintro rfl
        exact hvalue' (by simpa using hproduct')
      have hmultiple := Decimal.isMultiple_scaled_iff hcoprime hcoprime' two five two' five'
        exponent' exponent
      rw [← hproduct, ← hproduct'] at hmultiple
      rw [exists_multiple_signed, hpositive]
      simp only [Decimal.signed, Bool.false_eq_true, if_false, one_mul]
      rw [hmultiple]
      obtain ⟨hsigned, hnegated⟩ := negate_exponent exponent
      simp only [hfactor, hfactor', Option.bind_eq_bind, Option.bind_some, htext, htext']
      rw [addInteger_eq (isSigned_integerText _) hsigned, hnegated, exponentValue_integerText,
        addInteger_eq (isSigned_integerText _) (isSigned_integerText _),
        addInteger_eq (isSigned_integerText _) (isSigned_integerText _),
        compareInteger_eq (isSigned_integerText _) hzeroSigned,
        compareInteger_eq (isSigned_integerText _) hzeroSigned]
      simp only [exponentValue_integerText, hzeroValue, sub_zero, Int.sign_nonneg_iff,
        divisible_eq hrest (isDigit_digitsOf rest), value_digitsOf]
      split
      · next hpowers => exact ⟨_, rfl, by simp [hpowers]⟩
      · next hpowers => exact ⟨_, rfl, by simpa using fun htwo hfive ↦ absurd ⟨htwo, hfive⟩ hpowers⟩

end Division

end Bdp.Schema
