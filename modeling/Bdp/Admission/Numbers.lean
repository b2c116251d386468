import Bdp.Admission.ExactNumbers

/-!
# Numeric admission

The decimal normal form of a number lexeme and the test that a lexeme denotes the number that its
nearest double is written as. The exponent of the normal form is computed with doubles; a text that
an engine can hold never brings that sum near zero from where it is rounded.
-/

namespace Bdp.Admission

open CodeUnits JsonGrammar
open Spans (span_append)
open Bdp.Decimal (isDigit trailingZeros)

section Definitions

variable (numbers : Numbers)

/-- `Number` of the text of an exponent. -/
def exponentValue : Text → ℤ
  | [] => 0
  | unit :: rest =>
    if unit = 45 then -(Decimal.value rest : ℤ)
    else if unit = 43 then Decimal.value rest
    else Decimal.value (unit :: rest)

/-- `/[eE]/` -/
def isMarker (unit : ℕ) : Bool := unit == 101 || unit == 69

/-- `Number.isSafeInteger` -/
def isSafeInteger (number : ℚ) : Bool := decide (number.den = 1 ∧ |number| ≤ 2 ^ 53 - 1)

def sumText (sum : Option ℚ) : Text :=
  match sum with
  | some number => numbers.shortest number
  | none => ascii ['I', 'n', 'f', 'i', 'n', 'i', 't', 'y']

/-- The second field of a split at `unit`, when there is one. -/
def fieldAfter (test : ℕ → Bool) (text absent : Text) : Text :=
  match text.dropWhile fun unit ↦ !test unit with
  | [] => absent
  | _ :: rest => rest.takeWhile fun unit ↦ !test unit

/-- The exact decimal of a lexeme: its sign, its digits without zeros at either end, and the power
of ten that goes with them. -/
def exactDecimal (literal : Text) : Option Text :=
  let negative := literal.head? == some 45
  let unsigned := if negative then literal.tail else literal
  let mantissa := unsigned.takeWhile fun unit ↦ !isMarker unit
  let exponentText := fieldAfter isMarker unsigned [48]
  let integer := mantissa.takeWhile fun unit ↦ !(unit == 46)
  let fraction := fieldAfter (· == 46) mantissa []
  let significant := Decimal.dropZeros (integer ++ fraction)
  if significant = [] then some [48]
  else
    let trailing := Decimal.trailingZeros significant
    match numbers.nearest (exponentValue exponentText) with
    | none => none
    | some exponent =>
      if isSafeInteger exponent then
        let sum := (numbers.nearest (exponent - fraction.length)).bind fun shifted ↦
          numbers.nearest (shifted + trailing)
        some (minusText negative ++
          (significant.take (significant.length - trailing) ++ 101 :: sumText numbers sum))
      else none

/-- The exact decimal of a lexeme is the exact decimal of what its nearest double is written as. -/
def isAdmissibleJsonNumber (literal : Text) : Except String Bool :=
  match numberParts literal with
  | none => .error "invalid JSON number literal"
  | some parts =>
    match numbers.nearest parts.value with
    | none => .ok false
    | some nearest =>
      let exact := exactDecimal numbers literal
      .ok (exact.isSome && exact == exactDecimal numbers (numbers.shortest nearest))

/-- More code units than a string of any engine holds. -/
def stringLimit : ℕ := 2 ^ 32

end Definitions

variable {p q : NumberParts}

section Parts

/-- Digits that count, without zeros at either end. -/
def significant (parts : NumberParts) : Text :=
  Decimal.dropZeros (parts.integer ++ parts.fraction)

def coefficient (parts : NumberParts) : Text :=
  (significant parts).take ((significant parts).length - Decimal.trailingZeros (significant parts))

/-- The power of ten that goes with the coefficient. -/
def scale (parts : NumberParts) : ℤ :=
  parts.power - parts.fraction.length + Decimal.trailingZeros (significant parts)

variable {parts : NumberParts}

section

variable (h : parts.Valid)
include h

theorem digits_append : Digits (parts.integer ++ parts.fraction) :=
  List.forall_mem_append.mpr ⟨digits_integer h.integer, h.fraction⟩

theorem digits_significant : Digits (significant parts) :=
  (Decimal.leading_dropZeros (digits_append h)).1

theorem leading_coefficient : Decimal.Leading (coefficient parts) := by
  have hleading := Decimal.leading_dropZeros (digits_append h)
  refine ⟨fun digit hdigit ↦ hleading.1 digit (List.mem_of_mem_take hdigit), ?_⟩
  intro hhead
  apply hleading.2
  unfold coefficient at hhead
  rw [List.head?_take] at hhead
  split at hhead
  · cases hhead
  · exact hhead

theorem value_significant : Decimal.value (significant parts) = 0 ↔ significant parts = [] := by
  rw [significant, Decimal.value_dropZeros, Decimal.value_eq_zero_iff (digits_append h)]

theorem not_dvd_coefficient
    (hne : significant parts ≠ []) : ¬ 10 ∣ Decimal.value (coefficient parts) :=
  Decimal.not_dvd_value_take (digits_significant h) (mt (value_significant h).mp hne)

end

theorem value_eq_coefficient (parts : NumberParts) : parts.value =
      Decimal.signed parts.negative (Decimal.value (coefficient parts)) (scale parts) := by
  have hdigits : Decimal.value (parts.integer ++ parts.fraction) =
      Decimal.value (coefficient parts) *
        10 ^ trailingZeros (significant parts) := by
    rw [coefficient, Decimal.value_take_trailingZeros, significant, Decimal.value_dropZeros]
  rw [NumberParts.value, hdigits, Decimal.signed_scale, scale]

theorem value_eq_zero_iff (h : parts.Valid) : parts.value = 0 ↔ significant parts = [] := by
  rw [NumberParts.value, Decimal.signed_eq_zero_iff, Decimal.value_eq_zero_iff (digits_append h),
    significant]

theorem value_eq_iff (hp : p.Valid) (hq : q.Valid)
    (hpne : significant p ≠ []) (hqne : significant q ≠ []) :
    p.value = q.value ↔
      p.negative = q.negative ∧ coefficient p = coefficient q ∧ scale p = scale q := by
  rw [value_eq_coefficient p, value_eq_coefficient q]
  constructor
  · intro h
    obtain ⟨hnegative, hvalue, hscale⟩ := Decimal.signed_injective (not_dvd_coefficient hp hpne)
      (not_dvd_coefficient hq hqne) h
    exact ⟨hnegative, (leading_coefficient hp).value_injective (leading_coefficient hq) hvalue,
      hscale⟩
  · rintro ⟨hnegative, hcoefficient, hscale⟩
    rw [hnegative, hcoefficient, hscale]

theorem isDigit_not_marker {unit : ℕ} (h : isDigit unit = true) :
    (!isMarker unit) = true ∧ (!(unit == 46)) = true := by
  simp only [isDigit, decide_eq_true_eq] at h
  simp only [isMarker, Bool.not_eq_true', Bool.or_eq_false_iff, beq_eq_false_iff_ne]
  omega

section

variable (h : parts.Valid)
include h

theorem head_exponentText :
    ∀ unit ∈ (exponentText parts.exponent).head?, (!isMarker unit) = false := by
  intro unit hunit
  cases hexponent : parts.exponent with
  | none => simp [exponentText, hexponent] at hunit
  | some part =>
    have hletter := (h.exponent part (by simp [hexponent])).letter
    obtain rfl : part.letter = unit := by
      simpa [exponentText, ExponentPart.text, hexponent] using hunit
    rcases hletter with hletter | hletter <;> simp [isMarker, hletter]

theorem head_text : (parts.text.head? == some 45) = parts.negative ∧
      (if parts.negative then parts.text.tail else parts.text) =
        parts.integer ++ (fractionText parts.fraction ++ exponentText parts.exponent) := by
  cases hnegative : parts.negative with
  | true => simp [NumberParts.text, minusText, hnegative]
  | false =>
    cases hinteger : parts.integer with
    | nil => exact absurd hinteger (integer_ne_nil h.integer)
    | cons first digits =>
      have hdigit := digits_integer h.integer first (by simp [hinteger])
      simp only [isDigit, decide_eq_true_eq] at hdigit
      have hminus : first ≠ 45 := by omega
      simp [NumberParts.text, minusText, hnegative, hinteger, hminus]

theorem span_marker :
    (parts.integer ++ (fractionText parts.fraction ++ exponentText parts.exponent)).takeWhile
        (fun unit ↦ !isMarker unit) = parts.integer ++ fractionText parts.fraction ∧
      (parts.integer ++ (fractionText parts.fraction ++ exponentText parts.exponent)).dropWhile
        (fun unit ↦ !isMarker unit) = exponentText parts.exponent := by
  have hmantissa : ∀ unit ∈ parts.integer ++ fractionText parts.fraction,
      (!isMarker unit) = true := by
    intro unit hunit
    rcases List.mem_append.mp hunit with hunit | hunit
    · exact (isDigit_not_marker (digits_integer h.integer unit hunit)).1
    · unfold fractionText at hunit
      split at hunit
      · cases hunit
      · rcases List.mem_cons.mp hunit with rfl | hunit
        · rfl
        · exact (isDigit_not_marker (h.fraction unit hunit)).1
  rw [← List.append_assoc]
  exact span_append hmantissa (head_exponentText h)

theorem span_point :
    (parts.integer ++ fractionText parts.fraction).takeWhile (fun unit ↦ !(unit == 46)) =
        parts.integer ∧
      (parts.integer ++ fractionText parts.fraction).dropWhile (fun unit ↦ !(unit == 46)) =
        fractionText parts.fraction := by
  apply span_append
  · intro unit hunit
    exact (isDigit_not_marker (digits_integer h.integer unit hunit)).2
  · intro unit hunit
    unfold fractionText at hunit
    split at hunit
    · cases hunit
    · obtain rfl : 46 = unit := by simpa using hunit
      rfl

theorem fieldAfter_point :
    fieldAfter (· == 46) (parts.integer ++ fractionText parts.fraction) [] = parts.fraction := by
  unfold fieldAfter
  rw [(span_point h).2]
  unfold fractionText
  split
  · next hempty =>
    split at hempty
    · next hnil => exact hnil.symm
    · cases hempty
  · next unit rest hrest =>
    split at hrest
    · cases hrest
    · obtain ⟨_, rfl⟩ := List.cons.inj hrest
      apply List.takeWhile_eq_self_iff.mpr
      intro unit hunit
      exact (isDigit_not_marker (h.fraction unit hunit)).2

theorem exponentValue_fieldAfter : exponentValue (fieldAfter isMarker
      (parts.integer ++ (fractionText parts.fraction ++ exponentText parts.exponent)) [48]) =
      parts.power := by
  unfold fieldAfter
  rw [(span_marker h).2]
  cases hexponent : parts.exponent with
  | none => simp [exponentText, exponentValue, NumberParts.power, hexponent, Decimal.value]
  | some part =>
    have hvalid := h.exponent part (by simp [hexponent])
    have htail : (part.sign.toList ++ part.digits).takeWhile (fun unit ↦ !isMarker unit) =
        part.sign.toList ++ part.digits := by
      apply List.takeWhile_eq_self_iff.mpr
      intro unit hunit
      rcases List.mem_append.mp hunit with hunit | hunit
      · rcases hvalid.sign unit (by simpa using hunit) with rfl | rfl <;> rfl
      · exact (isDigit_not_marker (hvalid.digits unit hunit)).1
    simp only [exponentText, Option.map_some, Option.getD_some, ExponentPart.text, htail,
      NumberParts.power, hexponent, ExponentPart.power]
    cases hsign : part.sign with
    | some sign =>
      rcases hvalid.sign sign (by simp [hsign]) with rfl | rfl <;> simp [exponentValue]
    | none =>
      cases hdigits : part.digits with
      | nil => exact absurd hdigits hvalid.nonempty
      | cons digit digits =>
        have hdigit := hvalid.digits digit (by simp [hdigits])
        simp only [isDigit, decide_eq_true_eq] at hdigit
        have hminus : digit ≠ 45 := by omega
        have hplus : digit ≠ 43 := by omega
        simp [exponentValue, hminus, hplus]

end

end Parts

section Exact

variable {numbers : Numbers}

/-- The exponent of the normal form, as the additions of doubles give it. -/
def scaleSum (numbers : Numbers) (parts : NumberParts) : Option ℚ :=
  (numbers.nearest (parts.power - parts.fraction.length)).bind fun shifted ↦
    numbers.nearest (shifted + Decimal.trailingZeros (significant parts))

theorem exists_nearest (lawful : numbers.Lawful) {number : ℚ} (h : |number| ≤ 2 ^ 60) :
    ∃ rounded, numbers.nearest number = some rounded := by
  cases hnearest : numbers.nearest number with
  | some rounded => exact ⟨rounded, rfl⟩
  | none =>
    have hoverflow := (lawful.overflow number).mp hnearest
    have hunit : (2 : ℚ) ^ 60 ≤ 2 ^ 970 := pow_le_pow_right₀ (by norm_num) (by norm_num)
    have hhigh : (2 : ℚ) ^ 1024 = 2 ^ 54 * 2 ^ 970 := by rw [← pow_add]
    rw [overflowBound, hhigh] at hoverflow
    generalize (2 : ℚ) ^ 970 = unit at hunit hoverflow
    norm_num at hunit hoverflow h
    linarith

theorem isSafeInteger_nearest (lawful : numbers.Lawful) {power : ℤ} {rounded : ℚ}
    (h : numbers.nearest power = some rounded) :
    (isSafeInteger rounded = true ↔ |power| ≤ 2 ^ 53 - 1) ∧
      (|power| ≤ 2 ^ 53 - 1 → rounded = power) := by
  have hexact : |power| ≤ 2 ^ 53 → rounded = power := by
    intro hsmall
    rw [lawful.nearest_int hsmall] at h
    exact (Option.some.inj h).symm
  refine ⟨?_, fun hsafe ↦ hexact (by omega)⟩
  simp only [isSafeInteger, decide_eq_true_eq]
  constructor
  · rintro ⟨_, hrounded⟩
    by_contra hlarge
    have hcases : 2 ^ 53 ≤ power ∨ power ≤ -2 ^ 53 := by
      rcases abs_cases power with ⟨habs, _⟩ | ⟨habs, _⟩ <;> omega
    rcases hcases with hpower | hpower
    · have hpower : (2 : ℚ) ^ 53 ≤ power := by exact_mod_cast hpower
      have := lawful.le_of_nearest (isDouble_pow (by norm_num)) hpower h
      rw [abs_le] at hrounded
      linarith [hrounded.2]
    · have hpower : (power : ℚ) ≤ -2 ^ 53 := by exact_mod_cast hpower
      have := lawful.nearest_le (isDouble_neg_pow (by norm_num)) hpower h
      rw [abs_le] at hrounded
      linarith [hrounded.1]
  · intro hsafe
    rw [hexact (by omega)]
    refine ⟨Rat.den_intCast power, ?_⟩
    exact_mod_cast hsafe

variable {parts : NumberParts}

theorem exactDecimal_text (lawful : numbers.Lawful) (h : parts.Valid) :
    exactDecimal numbers parts.text = if significant parts = [] then some [48]
      else if |parts.power| ≤ 2 ^ 53 - 1 then
        some (minusText parts.negative ++
          (coefficient parts ++ 101 :: sumText numbers (scaleSum numbers parts)))
      else none := by
  have hhead := head_text h
  simp only [exactDecimal, hhead.1, hhead.2, (span_marker h).1, (span_point h).1,
    fieldAfter_point h, exponentValue_fieldAfter h]
  by_cases hzero : significant parts = []
  · rw [if_pos hzero, if_pos (by simpa [significant] using hzero)]
  · rw [if_neg hzero, if_neg (by simpa [significant] using hzero)]
    cases hnearest : numbers.nearest parts.power with
    | none =>
      have hlarge : ¬ |parts.power| ≤ 2 ^ 53 - 1 := by
        intro hsafe
        rw [lawful.nearest_int (by omega)] at hnearest
        cases hnearest
      rw [if_neg hlarge]
    | some rounded =>
      obtain ⟨hsafe, hexact⟩ := isSafeInteger_nearest lawful hnearest
      by_cases hpower : |parts.power| ≤ 2 ^ 53 - 1
      · have hrounded := hsafe.mpr hpower
        rw [hexact hpower] at hrounded ⊢
        simp only [hrounded, if_pos hpower]
        rfl
      · have hlarge : isSafeInteger rounded = false := by
          cases hvalue : isSafeInteger rounded with
          | false => rfl
          | true => exact absurd (hsafe.mp hvalue) hpower
        rw [if_neg hpower]
        simp [hlarge]

theorem trailingZeros_significant_le (parts : NumberParts) :
    trailingZeros (significant parts) + parts.fraction.length ≤ 2 * parts.text.length := by
  have htrailing := Decimal.trailingZeros_le (significant parts)
  have hsignificant : (significant parts).length ≤ (parts.integer ++ parts.fraction).length :=
    (List.dropWhile_suffix _).length_le
  have hfraction : parts.fraction.length ≤ (fractionText parts.fraction).length := by
    unfold fractionText
    split
    · next h => simp [h]
    · simp
  have htext : parts.integer.length + (fractionText parts.fraction).length ≤ parts.text.length := by
    simp only [NumberParts.text, List.length_append]
    omega
  simp only [List.length_append] at hsignificant
  omega

theorem scaleSum_spec (lawful : numbers.Lawful)
    (hpower : |parts.power| ≤ 2 ^ 53 - 1) (hlength : parts.text.length ≤ stringLimit) :
    ∃ sum, scaleSum numbers parts = some sum ∧ IsDouble sum ∧
      (|sum| ≤ 2 ^ 15 → sum = scale parts) ∧ (|scale parts| ≤ 2 ^ 15 → sum = scale parts) := by
  have hbounds := trailingZeros_significant_le parts
  rw [stringLimit] at hlength
  have hscale : scale parts = parts.power - parts.fraction.length +
      trailingZeros (significant parts) := rfl
  rw [scaleSum]
  generalize hlow : parts.power - (parts.fraction.length : ℤ) = low at hscale
  generalize trailingZeros (significant parts) = trailing at hbounds hscale ⊢
  have hcast : ((parts.power : ℚ) - parts.fraction.length) = (low : ℚ) := by
    rw [← hlow]
    push_cast
    rfl
  have hlowUpper : low ≤ 2 ^ 53 - 1 := by
    have := (abs_le.mp hpower).2
    omega
  have hlowLower : -2 ^ 54 ≤ low := by
    have := (abs_le.mp hpower).1
    omega
  rw [hcast]
  by_cases hsmall : |low| ≤ 2 ^ 53
  · rw [lawful.nearest_int hsmall, Option.bind_some]
    have hsum : (low : ℚ) + trailing = (scale parts : ℤ) := by
      rw [hscale]
      push_cast
      rfl
    rw [hsum]
    by_cases hexact : |scale parts| ≤ 2 ^ 53
    · exact ⟨scale parts, lawful.nearest_int hexact, isDouble_int hexact, fun _ ↦ rfl, fun _ ↦ rfl⟩
    · have hlarge : 2 ^ 53 ≤ scale parts := by
        have := abs_le.mp hsmall
        by_contra hlt
        apply hexact
        rw [abs_le]
        omega
      have hupper : |(scale parts : ℚ)| ≤ 2 ^ 60 := by
        have : |scale parts| ≤ 2 ^ 60 := by
          rw [abs_le]
          omega
        exact_mod_cast this
      obtain ⟨sum, hnearest⟩ := exists_nearest lawful hupper
      have hlargeCast : (2 : ℚ) ^ 53 ≤ scale parts := by exact_mod_cast hlarge
      have hsumLarge := lawful.le_of_nearest (isDouble_pow (by norm_num)) hlargeCast hnearest
      refine ⟨sum, hnearest, lawful.double _ _ hnearest, ?_, ?_⟩
      · intro hsumSmall
        have := (abs_le.mp hsumSmall).2
        norm_num at this hsumLarge
        linarith
      · intro hscaleSmall
        have := (abs_le.mp hscaleSmall).2
        omega
  · have hlowLarge : low ≤ -2 ^ 53 := by
      by_contra hlt
      apply hsmall
      rw [abs_le]
      omega
    have hlowCast : (low : ℚ) ≤ -2 ^ 53 := by exact_mod_cast hlowLarge
    have hlowLowerCast : (-2 ^ 54 : ℚ) ≤ low := by exact_mod_cast hlowLower
    have hbounded : |(low : ℚ)| ≤ 2 ^ 60 := by
      rw [abs_le]
      constructor <;> norm_num at hlowCast hlowLowerCast ⊢ <;> linarith
    obtain ⟨shifted, hshifted⟩ := exists_nearest lawful hbounded
    have hupper := lawful.nearest_le (isDouble_neg_pow (by norm_num)) hlowCast hshifted
    have hlower := lawful.le_of_nearest (isDouble_neg_pow (by norm_num)) hlowLowerCast hshifted
    have htrailing : (trailing : ℚ) ≤ 8589934592 := by
      have : trailing ≤ 8589934592 := by omega
      exact_mod_cast this
    have htrailingPos : (0 : ℚ) ≤ trailing := Nat.cast_nonneg _
    norm_num at hupper hlower
    have hsumBounded : |shifted + trailing| ≤ 2 ^ 60 := by
      rw [abs_le]
      constructor <;> norm_num <;> linarith
    obtain ⟨sum, hsum⟩ := exists_nearest lawful hsumBounded
    have hsumUpper : sum ≤ -2 ^ 52 := by
      apply lawful.nearest_le (isDouble_neg_pow (by norm_num)) _ hsum
      norm_num
      linarith
    refine ⟨sum, by rw [hshifted, Option.bind_some, hsum], lawful.double _ _ hsum, ?_, ?_⟩
    · intro hsumSmall
      have := (abs_le.mp hsumSmall).1
      norm_num at this hsumUpper
      linarith
    · intro hscaleSmall
      have := (abs_le.mp hscaleSmall).1
      omega

theorem normalForm_injective (hp : p.Valid) (hq : q.Valid)
    (hpne : significant p ≠ []) (hqne : significant q ≠ []) {left right : Text}
    (h : minusText p.negative ++ (coefficient p ++ 101 :: left) =
      minusText q.negative ++ (coefficient q ++ 101 :: right)) :
    p.negative = q.negative ∧ coefficient p = coefficient q ∧ left = right := by
  have hspan : ∀ {parts : NumberParts} (tail : Text), parts.Valid →
      (coefficient parts ++ 101 :: tail).takeWhile isDigit = coefficient parts :=
    fun tail hvalid ↦ (span_append (leading_coefficient hvalid).1 (by simp [isDigit])).1
  have hnonempty : ∀ {parts : NumberParts}, parts.Valid → significant parts ≠ [] →
      ∃ digit digits, coefficient parts = digit :: digits ∧ digit ≠ 45 := by
    intro parts hvalid hne
    cases hcoefficient : coefficient parts with
    | nil =>
      have := not_dvd_coefficient hvalid hne
      rw [hcoefficient] at this
      exact absurd (dvd_zero 10) this
    | cons digit digits =>
      refine ⟨digit, digits, rfl, ?_⟩
      rintro rfl
      have := (leading_coefficient hvalid).1 45 (by simp [hcoefficient])
      simp [isDigit] at this
  have hrest : p.negative = q.negative →
      coefficient p ++ 101 :: left = coefficient q ++ 101 :: right →
      p.negative = q.negative ∧ coefficient p = coefficient q ∧ left = right := by
    intro hsign hdigits
    have hcoefficient : coefficient p = coefficient q := by
      rw [← hspan left hp, hdigits, hspan right hq]
    rw [hcoefficient] at hdigits
    exact ⟨hsign, hcoefficient, (List.cons.inj (List.append_cancel_left hdigits)).2⟩
  obtain ⟨pdigit, pdigits, hpcoefficient, hpdigit⟩ := hnonempty hp hpne
  obtain ⟨qdigit, qdigits, hqcoefficient, hqdigit⟩ := hnonempty hq hqne
  cases hpsign : p.negative <;> cases hqsign : q.negative <;>
    simp only [hpsign, hqsign, minusText, if_true, Bool.false_eq_true, if_false, List.nil_append,
      List.cons_append, List.cons.injEq, true_and] at h
  · exact ⟨rfl, (hrest (by rw [hpsign, hqsign]) h).2⟩
  · rw [hpcoefficient] at h
    simp only [List.cons_append, List.cons.injEq] at h
    exact absurd h.1 hpdigit
  · rw [hqcoefficient] at h
    simp only [List.cons_append, List.cons.injEq] at h
    exact absurd h.1.symm hqdigit
  · exact ⟨rfl, (hrest (by rw [hpsign, hqsign]) h).2⟩

/-- Exact decimals agree exactly when the numbers do, for a text that an engine can hold against
the short text that a double is written as. -/
theorem exactDecimal_eq_iff (lawful : numbers.Lawful) (hp : p.Valid)
    (hq : q.Valid) (hplength : p.text.length ≤ stringLimit) (hqlength : q.text.length ≤ 2 ^ 12)
    (hqpower : |q.power| ≤ 2 ^ 12) :
    ((exactDecimal numbers p.text).isSome = true ∧
      exactDecimal numbers p.text = exactDecimal numbers q.text) ↔ p.value = q.value := by
  have hqbounds := trailingZeros_significant_le q
  have hqscale : |scale q| ≤ 2 ^ 14 := by
    have hpower := abs_le.mp hqpower
    rw [abs_le, scale]
    omega
  have hqsafe : |q.power| ≤ 2 ^ 53 - 1 := by omega
  have hqlimit : q.text.length ≤ stringLimit := by
    rw [stringLimit]
    omega
  obtain ⟨qsum, hqsum, hqdouble, _, hqexact⟩ := scaleSum_spec lawful hqsafe hqlimit
  have hqexact := hqexact (by omega)
  rw [exactDecimal_text lawful hp, exactDecimal_text lawful hq, if_pos hqsafe]
  by_cases hpzero : significant p = []
  · have hpvalue := (value_eq_zero_iff hp).mpr hpzero
    by_cases hqzero : significant q = []
    · simp [hpzero, hqzero, hpvalue, (value_eq_zero_iff hq).mpr hqzero]
    · have hqvalue := mt (value_eq_zero_iff hq).mp hqzero
      have hne : ¬ (some [48] : Option Text) =
          some (minusText q.negative ++ (coefficient q ++ 101 :: sumText numbers
            (scaleSum numbers q))) := by
        intro h
        have hmem : 101 ∈ ([48] : Text) := by
          rw [Option.some.inj h]
          simp
        simp at hmem
      simp only [hpzero, hqzero, if_true, if_false, hpvalue]
      exact ⟨fun h ↦ absurd h.2 hne, fun h ↦ absurd h.symm hqvalue⟩
  · have hpvalue := mt (value_eq_zero_iff hp).mp hpzero
    rw [if_neg hpzero]
    by_cases hqzero : significant q = []
    · have hqvalue := (value_eq_zero_iff hq).mpr hqzero
      rw [if_pos hqzero, hqvalue]
      constructor
      · rintro ⟨_, h⟩
        split at h
        · have hmem : 101 ∈ ([48] : Text) := by
            rw [← Option.some.inj h]
            simp
          simp at hmem
        · cases h
      · exact fun h ↦ absurd h hpvalue
    · rw [if_neg hqzero, value_eq_iff hp hq hpzero hqzero]
      constructor
      · rintro ⟨hsome, h⟩
        split at h
        · next hpsafe =>
          obtain ⟨psum, hpsum, hpdouble, hpexact, _⟩ := scaleSum_spec lawful hpsafe hplength
          obtain ⟨hsign, hcoefficient, hsums⟩ :=
            normalForm_injective hp hq hpzero hqzero (Option.some.inj h)
          rw [hpsum, hqsum] at hsums
          have hequal := lawful.shortest_injective hpdouble hqdouble hsums
          have hsmall : |psum| ≤ 2 ^ 15 := by
            rw [hequal, hqexact]
            have : |scale q| ≤ 2 ^ 15 := by omega
            exact_mod_cast this
          have hscale : (scale p : ℚ) = scale q := by rw [← hpexact hsmall, hequal, hqexact]
          exact ⟨hsign, hcoefficient, by exact_mod_cast hscale⟩
        · cases h
      · rintro ⟨hsign, hcoefficient, hscale⟩
        have hpbounds := trailingZeros_significant_le p
        have hpsafe : |p.power| ≤ 2 ^ 53 - 1 := by
          rw [stringLimit] at hplength
          have hbound := abs_le.mp (hscale ▸ hqscale)
          rw [scale] at hbound
          rw [abs_le]
          omega
        obtain ⟨psum, hpsum, _, _, hpexact⟩ := scaleSum_spec lawful hpsafe hplength
        have hpexact := hpexact (by rw [hscale]; omega)
        rw [if_pos hpsafe, hpsum, hqsum, hpexact, hqexact, hsign, hcoefficient, hscale]
        exact ⟨rfl, rfl⟩

/-- A number lexeme is admissible exactly when its nearest double is finite and is written as a
lexeme that denotes the same number. -/
theorem isAdmissibleJsonNumber_iff (lawful : numbers.Lawful)
    (hvalid : parts.Valid) (hlength : parts.text.length ≤ stringLimit) :
    isAdmissibleJsonNumber numbers parts.text = .ok true ↔
      ∃ nearest written, numbers.nearest parts.value = some nearest ∧
        numberParts (numbers.shortest nearest) = some written ∧ parts.value = written.value := by
  simp only [isAdmissibleJsonNumber, numberParts_text hvalid]
  cases hnearest : numbers.nearest parts.value with
  | none => simp
  | some nearest =>
    obtain ⟨written, hwritten, htext, hshort, hpower⟩ :=
      lawful.lexeme nearest (lawful.double _ _ hnearest)
    have hiff := exactDecimal_eq_iff lawful hvalid hwritten hlength hshort hpower
    rw [← htext] at hiff
    simp only [Except.ok.injEq, Bool.and_eq_true, beq_iff_eq, hiff]
    constructor
    · intro hvalue
      exact ⟨nearest, written, rfl, by rw [htext, numberParts_text hwritten], hvalue⟩
    · rintro ⟨other, parts', hother, hparts, hvalue⟩
      obtain rfl := Option.some.inj hother
      rw [htext, numberParts_text hwritten] at hparts
      obtain rfl := Option.some.inj hparts
      exact hvalue

/-- Numeric admission is exact: a lexeme that an engine can hold is admissible if and only if its
nearest double is finite and the lexeme that this double is written as denotes the same number. -/
theorem isAdmissibleJsonNumber_exact (lawful : numbers.Lawful) {lexeme : Text}
    {parts : NumberParts} (hlexeme : numberParts lexeme = some parts)
    (hlength : lexeme.length ≤ stringLimit) :
    isAdmissibleJsonNumber numbers lexeme = .ok true ↔
      ∃ nearest written, numbers.nearest parts.value = some nearest ∧
        numberParts (numbers.shortest nearest) = some written ∧ parts.value = written.value := by
  obtain ⟨hvalid, rfl⟩ := numberParts_sound hlexeme
  exact isAdmissibleJsonNumber_iff lawful hvalid hlength

def hundredths : Text := ascii ['1', '0', '0', 'e', '-', '2']

theorem isAdmissibleJsonNumber_hundredths :
    isAdmissibleJsonNumber exactNumbers hundredths = .ok true ↔
      ∃ nearest written,
        exactNumbers.nearest
            (NumberParts.value ⟨false, [49, 48, 48], [], some ⟨101, some 45, [50]⟩⟩) =
          some nearest ∧
        numberParts (exactNumbers.shortest nearest) = some written ∧
        NumberParts.value ⟨false, [49, 48, 48], [], some ⟨101, some 45, [50]⟩⟩ = written.value :=
  isAdmissibleJsonNumber_exact exactNumbers_lawful (by rfl) (by decide)

end Exact

end Bdp.Admission
