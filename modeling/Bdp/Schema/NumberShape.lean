import Bdp.Library.JsonGrammar
import Bdp.Schema.DecimalLaw

/-!
# The shape of numeric keyword values

The check that a schema keyword holds a number, a positive number or a count. It decides from the
digits and from the length of the exponent, and never expands an exponent.
-/

namespace Bdp.Schema

open Admission JsonGrammar
open Bdp.Decimal (trailingZeros dropZeros)

section Definitions

inductive NumberKind where
  | number
  | positive
  | count
  deriving DecidableEq

/-- What the scan of a mantissa has counted. -/
structure Scan where
  fraction : ℕ
  trailing : ℕ
  nonzero : Bool
  afterPoint : Bool

def scanUnit (scan : Scan) (c : ℕ) : Scan :=
  if c = 46 then { scan with afterPoint := true }
  else
    { scan with
      fraction := if scan.afterPoint then scan.fraction + 1 else scan.fraction
      trailing := if c = 48 then scan.trailing + 1 else 0
      nonzero := scan.nonzero || decide (c ≠ 48) }

/-- Whether an exponent reaches the threshold below which a fraction is left. -/
def exponentReaches (exp : Text) (threshold : ℤ) : Bool :=
  let expNegative := exp.head? == some 45
  let digits := Decimal.dropZeros
    (if exp.head? = some 43 ∨ exp.head? = some 45 then exp.tail else exp)
  if (Decimal.digitsOf threshold.natAbs).length < digits.length then !expNegative
  else
    decide (threshold ≤ (if expNegative then -1 else 1) *
      (Decimal.value (if digits = [] then [48] else digits) : ℤ))

/-- `refuseGraph("keyword-shape")` where it fails. -/
def numberShape (v : JsonTree JsonLeaf) (kind : NumberKind) : Except String Unit :=
  match v with
  | .leaf (.number s) =>
    if kind = .number then .ok ()
    else
      let negative := s.head? == some 45
      let text := if negative then s.tail else s
      let scan := (text.takeWhile fun unit ↦ !isMarker unit).foldl scanUnit ⟨0, 0, false, false⟩
      if scan.nonzero = false then
        (if kind = .positive then .error "keyword-shape" else .ok ())
      else if negative then .error "keyword-shape"
      else if kind = .positive then .ok ()
      else if exponentReaches (restAfter isMarker text [48]) (scan.fraction - scan.trailing) then
        .ok ()
      else .error "keyword-shape"
  | _ => .error "keyword-shape"

end Definitions

variable {parts : NumberParts}

section Scanning

def scanned (seen : Text) (fraction : ℕ) (afterPoint : Bool) : Scan :=
  ⟨fraction, Decimal.trailingZeros seen, decide (Decimal.dropZeros seen ≠ []), afterPoint⟩

variable (seen : Text)

theorem trailingZeros_concat (digit : ℕ) : trailingZeros (seen ++ [digit]) =
      if digit = 48 then trailingZeros seen + 1 else 0 := by
  by_cases h : digit = 48 <;> simp [trailingZeros, h]

theorem dropZeros_concat_ne_nil (digit : ℕ) :
    dropZeros (seen ++ [digit]) ≠ [] ↔ dropZeros seen ≠ [] ∨ digit ≠ 48 := by
  simp only [dropZeros, ne_eq, List.dropWhile_eq_nil_iff, List.mem_append,
    List.mem_singleton, beq_iff_eq]
  constructor
  · intro h
    by_contra hnone
    push Not at hnone
    exact h fun other hother ↦ hother.elim (hnone.1 other) fun heq ↦ heq ▸ hnone.2
  · rintro (h | h) hall
    · exact h fun other hother ↦ hall other (.inl hother)
    · exact h (hall digit (.inr rfl))

theorem scanned_digits (fraction : ℕ) (afterPoint : Bool) {digits : Text} (h : Digits digits) :
    digits.foldl scanUnit (scanned seen fraction afterPoint) =
      scanned (seen ++ digits) (fraction + if afterPoint then digits.length else 0) afterPoint := by
  induction digits generalizing seen fraction with
  | nil => simp
  | cons digit digits ih =>
    have hdigit := digit_bounds h
    have hstep : scanUnit (scanned seen fraction afterPoint) digit =
        scanned (seen ++ [digit]) (fraction + if afterPoint then 1 else 0) afterPoint := by
      have hnonzero := dropZeros_concat_ne_nil seen digit
      rw [scanUnit, if_neg (by omega)]
      simp only [scanned, trailingZeros_concat, hnonzero, Bool.decide_or]
      cases afterPoint <;> rfl
    rw [List.foldl_cons, hstep, ih _ _ (digits_tail h), List.append_assoc, List.singleton_append]
    congr 1
    cases afterPoint with
    | false => rfl
    | true =>
      simp only [if_true, List.length_cons]
      omega

theorem scan_mantissa (h : parts.Valid) : ∃ afterPoint,
      (parts.integer ++ fractionText parts.fraction).foldl scanUnit ⟨0, 0, false, false⟩ =
        scanned (parts.integer ++ parts.fraction) parts.fraction.length afterPoint := by
  have hinteger := scanned_digits [] 0 false (digits_integer h.integer)
  simp only [List.nil_append, Bool.false_eq_true, if_false, Nat.add_zero] at hinteger
  rw [List.foldl_append, show (⟨0, 0, false, false⟩ : Scan) = scanned [] 0 false from rfl, hinteger,
    fractionText]
  by_cases hnil : parts.fraction = []
  · exact ⟨false, by simp [hnil]⟩
  · have hpoint : scanUnit (scanned parts.integer 0 false) 46 = scanned parts.integer 0 true := rfl
    rw [if_neg hnil, List.foldl_cons, hpoint, scanned_digits parts.integer 0 true h.fraction]
    exact ⟨true, by simp⟩

end Scanning

section Law

theorem exponentReaches_iff {exp : Text} (h : IsSigned exp) (threshold : ℤ) :
    exponentReaches exp threshold = true ↔ threshold ≤ exponentValue exp := by
  obtain ⟨sign, digits, rfl, hsign, hdigits, hne⟩ := h
  have hlong : (Decimal.digitsOf threshold.natAbs).length < (dropZeros digits).length →
      threshold.natAbs < Decimal.value digits := by
    intro hlength
    have hzero : dropZeros digits ≠ [] := by
      intro hnil
      simp [hnil] at hlength
    rw [← Decimal.value_dropZeros]
    apply Decimal.lt_of_length_lt
    rwa [← (Decimal.leading_dropZeros hdigits).eq_digitsOf hzero]
  have hvalue : Decimal.value (if dropZeros digits = [] then [48]
      else dropZeros digits) = Decimal.value digits := by
    split
    · next hnil =>
      rw [← Decimal.value_dropZeros digits, hnil]
      rfl
    · exact Decimal.value_dropZeros digits
  rcases hsign with rfl | rfl | rfl
  · have hhead : ∀ unit ∈ digits.head?, unit ≠ 43 ∧ unit ≠ 45 := by
      intro unit hunit
      have := hdigits unit (List.mem_of_head? hunit)
      simp only [Decimal.isDigit, decide_eq_true_eq] at this
      omega
    have hplus : digits.head? ≠ some 43 := fun heq ↦ (hhead 43 heq).1 rfl
    have hminus : digits.head? ≠ some 45 := fun heq ↦ (hhead 45 heq).2 rfl
    rw [List.nil_append, exponentValue_digits hdigits]
    simp only [exponentReaches, hplus, hminus, or_self, if_false, beq_eq_false_iff_ne.mpr hminus,
      hvalue]
    split
    · next hlength =>
      have := hlong hlength
      simp only [Bool.not_false, true_iff]
      omega
    · simp
  · have hexponent : exponentValue ([43] ++ digits) = Decimal.value digits := rfl
    rw [hexponent]
    simp only [exponentReaches, List.singleton_append, List.head?_cons, true_or, if_true,
      List.tail_cons, hvalue]
    split
    · next hlength =>
      have := hlong hlength
      simp
      omega
    · simp
  · have hexponent : exponentValue ([45] ++ digits) = -(Decimal.value digits : ℤ) := rfl
    rw [hexponent]
    simp only [exponentReaches, List.singleton_append, List.head?_cons, or_true, if_true,
      List.tail_cons, hvalue]
    split
    · next hlength =>
      have := hlong hlength
      simp
      omega
    · simp

theorem value_eq_trailing (parts : NumberParts) : parts.value = Decimal.signed parts.negative
      (Decimal.value ((parts.integer ++ parts.fraction).take
        ((parts.integer ++ parts.fraction).length -
          trailingZeros (parts.integer ++ parts.fraction))))
      (parts.power - parts.fraction.length + trailingZeros (parts.integer ++ parts.fraction)) := by
  rw [NumberParts.value, ← Decimal.value_take_trailingZeros, Decimal.signed_scale]

theorem value_pos_iff (hzero : parts.value ≠ 0) : 0 < parts.value ↔ parts.negative = false := by
  have hpower : (0 : ℚ) < 10 ^ (parts.power - parts.fraction.length) := by positivity
  have hdigits : (0 : ℚ) ≤ Decimal.value (parts.integer ++ parts.fraction) := Nat.cast_nonneg _
  have hscaled := mul_nonneg hdigits hpower.le
  rw [NumberParts.value, Decimal.signed] at hzero ⊢
  cases hnegative : parts.negative with
  | false =>
    simp only [hnegative, Bool.false_eq_true, if_false, one_mul] at hzero ⊢
    exact iff_of_true (lt_of_le_of_ne hscaled hzero.symm) trivial
  | true =>
    simp only [if_true, neg_one_mul, Bool.true_eq_false, iff_false, not_lt]
    exact neg_nonpos_of_nonneg hscaled

theorem numberShape_lexeme {s : Text} (hparts : numberParts s = some parts) (kind : NumberKind) :
    numberShape (.leaf (.number s)) kind = .ok () ↔ match kind with
      | .number => True
      | .positive => 0 < parts.value
      | .count => ∃ count : ℕ, parts.value = count := by
  obtain ⟨h, rfl⟩ := numberParts_sound hparts
  obtain ⟨afterPoint, hscan⟩ := scan_mantissa h
  obtain ⟨hsigned, hpower⟩ := restAfter_marker h
  have hzero := value_eq_zero_iff h
  simp only [numberShape, (head_text h).1, (head_text h).2, (span_marker h).1, hscan, scanned,
    exponentReaches_iff hsigned, hpower]
  rw [significant] at hzero
  by_cases hnone : dropZeros (parts.integer ++ parts.fraction) = []
  · have hvalue := hzero.mpr hnone
    cases kind <;> simp [hnone, hvalue]
    exact ⟨0, by simp⟩
  · have hvalue : parts.value ≠ 0 := mt hzero.mp hnone
    have hpositive := value_pos_iff hvalue
    cases kind with
    | number => simp
    | positive => cases hnegative : parts.negative <;> simp [hnone, hpositive, hnegative]
    | count =>
      cases hnegative : parts.negative with
      | true =>
        simp only [hnone, reduceCtorEq, if_false, ne_eq, not_false_eq_true, decide_true,
          Bool.true_eq_false, if_true, false_iff, not_exists]
        intro count hcount
        have hlt : 0 < parts.value := by
          rw [hcount] at hvalue ⊢
          exact lt_of_le_of_ne (Nat.cast_nonneg _) hvalue.symm
        rw [hpositive, hnegative] at hlt
        cases hlt
      | false =>
        have hdigits : Decimal.value (parts.integer ++ parts.fraction) ≠ 0 :=
          mt (Decimal.value_eq_zero_iff (digits_append h)).mp hnone
        have hinteger := Decimal.isInt_mul_zpow_iff
          (Decimal.not_dvd_value_take (digits_append h) hdigits)
          (parts.power - parts.fraction.length + trailingZeros (parts.integer ++ parts.fraction))
        have hvalueEq := value_eq_trailing parts
        rw [hnegative, Decimal.signed, if_neg Bool.false_ne_true, one_mul] at hvalueEq
        rw [← hvalueEq] at hinteger
        have hcount : (∃ count : ℕ, parts.value = count) ↔ ∃ number : ℤ, parts.value = number := by
          constructor
          · rintro ⟨count, hcount⟩
            exact ⟨count, by rw [hcount]; simp⟩
          · rintro ⟨number, hnumber⟩
            have hpos := hpositive.mpr hnegative
            rw [hnumber] at hpos
            obtain ⟨count, rfl⟩ := Int.eq_ofNat_of_zero_le (by exact_mod_cast hpos.le : 0 ≤ number)
            exact ⟨count, by rw [hnumber]; simp⟩
        rw [hcount, hinteger]
        simp only [hnone, reduceCtorEq, if_false, ne_eq, not_false_eq_true, decide_true,
          Bool.true_eq_false, Bool.false_eq_true]
        split
        · next hreaches =>
          simp only [true_iff]
          omega
        · next hreaches =>
          simp only [reduceCtorEq, false_iff]
          omega

end Law

section Exact

/-- Exact decimals: comparison, integrality and divisibility by a positive number are those of the
numbers that the lexemes denote, integers of any length are added and compared exactly, and the
check of counts and positive numbers decides by the number. -/
theorem decimals_exact {l m : Text} {p q : NumberParts} (hl : numberParts l = some p)
    (hm : numberParts m = some q) :
    (∀ limit a b, decimal l limit = .ok a → decimal m limit = .ok b →
      compareDecimal a b = (SignType.sign (p.value - q.value) : ℤ) ∧
      (isInteger a = true ↔ ∃ number : ℤ, p.value = number) ∧
      (0 < q.value → ∃ answer, multipleOf a b = some (.ok answer) ∧
        (answer = true ↔ ∃ k : ℤ, p.value = k * q.value)) ∧
      (q.value ≤ 0 → multipleOf a b = some (.error "nonpositive divisor"))) ∧
    (∀ s t, IsSigned s → IsSigned t →
      addInteger s t = Decimal.integerText (exponentValue s + exponentValue t) ∧
      compareInteger s t = (exponentValue s - exponentValue t).sign) ∧
    (numberShape (.leaf (.number l)) .count = .ok () ↔ ∃ count : ℕ, p.value = count) ∧
    (numberShape (.leaf (.number l)) .positive = .ok () ↔ 0 < p.value) := by
  refine ⟨?_, ?_, numberShape_lexeme hl .count, numberShape_lexeme hl .positive⟩
  · intro limit a b ha hb
    have hleft := decimal_denotes hl ha
    have hright := decimal_denotes hm hb
    exact ⟨compareDecimal_eq hleft hright, isInteger_iff hleft,
      multipleOf_positive hleft hright, multipleOf_nonpositive a hright⟩
  · intro s t hs ht
    exact ⟨addInteger_eq hs ht, compareInteger_eq hs ht⟩

def fifteen : Text := ascii ['1', '.', '5', '0', 'e', '1']

def fifteenParts : NumberParts := ⟨false, [49], [53, 48], some ⟨101, none, [49]⟩⟩

def threeHalves : Text := ascii ['1', '.', '5']

def threeHalvesParts : NumberParts := ⟨false, [49], [53], none⟩

theorem decimals_exact_fifteen :
    ∃ a b, decimal fifteen 4096 = .ok a ∧ decimal threeHalves 4096 = .ok b ∧
      compareDecimal a b = 1 ∧ isInteger a = true ∧ multipleOf a b = some (.ok true) := by
  have hleft : fifteenParts.value = 15 := by
    simp [fifteenParts, NumberParts.value, NumberParts.power, ExponentPart.power, Decimal.signed,
      Decimal.value]
    norm_num
  have hright : threeHalvesParts.value = 3 / 2 := by
    norm_num [threeHalvesParts, NumberParts.value, NumberParts.power, Decimal.signed,
      Decimal.value]
  obtain ⟨a, ha⟩ := decimal_total fifteen (by decide : _ ≤ 4096)
  obtain ⟨b, hb⟩ := decimal_total threeHalves (by decide : _ ≤ 4096)
  obtain ⟨hcompare, hinteger, hmultiple, _⟩ :=
    (decimals_exact (by rfl : numberParts fifteen = some fifteenParts)
      (by rfl : numberParts threeHalves = some threeHalvesParts)).1 4096 a b ha hb
  rw [hleft] at hcompare hinteger hmultiple
  rw [hright] at hcompare hmultiple
  obtain ⟨answer, hanswer, htrue⟩ := hmultiple (by norm_num)
  refine ⟨a, b, ha, hb, ?_, hinteger.mpr ⟨15, by norm_num⟩, ?_⟩
  · rw [hcompare, sign_pos (by norm_num)]
    rfl
  · rw [hanswer, htrue.mpr ⟨10, by norm_num⟩]

/-- Two is minus two times minus one, but the divisor is refused. -/
theorem multipleOf_minus_one :
    ∃ a b p q, decimal [50] 4096 = .ok a ∧ decimal [45, 49] 4096 = .ok b ∧
      numberParts [50] = some p ∧ numberParts [45, 49] = some q ∧
      (∃ k : ℤ, p.value = k * q.value) ∧ multipleOf a b ≠ some (.ok true) := by
  obtain ⟨a, ha⟩ := decimal_total [50] (by decide : _ ≤ 4096)
  obtain ⟨b, hb⟩ := decimal_total [45, 49] (by decide : _ ≤ 4096)
  have hvalue : NumberParts.value ⟨true, [49], [], none⟩ = -1 := by
    simp [NumberParts.value, NumberParts.power, Decimal.signed, Decimal.value]
  have hparts : numberParts [45, 49] = some ⟨true, [49], [], none⟩ := rfl
  have hrefused := multipleOf_nonpositive a (decimal_denotes hparts hb) (by
    rw [hvalue]
    norm_num)
  refine ⟨a, b, ⟨false, [50], [], none⟩, ⟨true, [49], [], none⟩, ha, hb, rfl, hparts, ⟨-2, ?_⟩, ?_⟩
  · rw [hvalue]
    norm_num [NumberParts.value, NumberParts.power, Decimal.signed, Decimal.value]
  · rw [hrefused]
    simp

end Exact

end Bdp.Schema
