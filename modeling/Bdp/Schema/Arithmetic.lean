import Bdp.Schema.Decimals

/-!
# The arithmetic of digit texts

Each function on digit texts does on the texts what the operation does on the numbers: the texts
that come out are the decimal texts of the results, for integers of any length.
-/

namespace Bdp.Schema

open Admission JsonGrammar
open Bdp.Decimal (digitsOf isDigit integerText isDigit_digitsOf value_digitsOf digitsOf_ne_nil)

variable {digits b : Text}

section Unsigned

variable {digit : ℕ}

theorem digits_tail (h : Digits (digit :: digits)) : Digits digits :=
  fun other hother ↦ h other (List.mem_cons_of_mem _ hother)

theorem digit_bounds (h : Digits (digit :: digits)) : 48 ≤ digit ∧ digit ≤ 57 := by
  simpa [isDigit] using h digit List.mem_cons_self

theorem strip_eq {s : Text} (h : Digits s) (hne : s ≠ []) :
    strip s = digitsOf (Decimal.value s) := by
  fun_induction strip s with
  | case1 next rest ih =>
    rw [ih (digits_tail h) (List.cons_ne_nil _ _), Decimal.value_cons 48]
    simp
  | case2 digit next rest hzero =>
    exact Decimal.Leading.eq_digitsOf ⟨h, by simpa using hzero⟩ hne
  | case3 s hshort =>
    match s, hshort with
    | [digit], _ =>
      have hdigit := digit_bounds h
      have hvalue : Decimal.value [digit] = digit - 48 := by simp [Decimal.value]
      rw [hvalue, Decimal.digitsOf_of_lt (by omega), show 48 + (digit - 48) = digit by omega]
    | digit :: next :: rest, hshort => exact absurd rfl (hshort digit next rest)

theorem magnitude_digitsOf (a b : ℕ) :
    magnitude (digitsOf a) (digitsOf b) = ((a : ℤ) - b).sign := by
  unfold magnitude
  by_cases hlength : (digitsOf a).length = (digitsOf b).length
  · rw [if_pos hlength]
    by_cases heq : a = b
    · simp [heq]
    · have hne : digitsOf a ≠ digitsOf b := mt Decimal.digitsOf_injective heq
      have hiff := Decimal.lt_iff_value_lt (isDigit_digitsOf a) (isDigit_digitsOf b)
        hlength
      rw [value_digitsOf, value_digitsOf] at hiff
      rw [if_neg hne]
      simp only [hiff]
      by_cases hlt : a < b
      · rw [if_pos hlt, Int.sign_eq_neg_one_of_neg (by omega)]
      · rw [if_neg hlt, Int.sign_eq_one_of_pos (by omega)]
  · rw [if_neg hlength]
    by_cases hlt : (digitsOf a).length < (digitsOf b).length
    · have := Decimal.lt_of_length_lt hlt
      rw [if_pos hlt, Int.sign_eq_neg_one_of_neg (by omega)]
    · have hgt : b < a := Decimal.lt_of_length_lt (by omega)
      rw [if_neg hlt, Int.sign_eq_one_of_pos (by omega)]

/-- The carries of an addition and the borrows of a subtraction. -/
def Carries (subtract : Bool) (carry : ℤ) : Prop :=
  if subtract then carry = -1 ∨ carry = 0 else carry = 0 ∨ carry = 1

def total (subtract : Bool) (x y carry : ℤ) : ℤ := x + (if subtract then -y else y) + carry

variable (subtract : Bool)

theorem column_spec {x y carry : ℤ} (hx : 0 ≤ x ∧ x ≤ 9) (hy : 0 ≤ y ∧ y ≤ 9)
    (hcarry : Carries subtract carry) :
    (0 ≤ (column subtract x y carry).1 ∧ (column subtract x y carry).1 ≤ 9) ∧
      Carries subtract (column subtract x y carry).2 ∧
      total subtract x y carry =
        (column subtract x y carry).1 + 10 * (column subtract x y carry).2 := by
  cases subtract with
  | false =>
    simp only [Carries, column, total, Bool.false_eq_true, if_false] at hcarry ⊢
    split <;> simp <;> omega
  | true =>
    simp only [Carries, column, total, if_true] at hcarry ⊢
    split <;> simp <;> omega

variable {high : Text}

theorem value_column {digit : ℤ} (h : Digits high) (hlow : 0 ≤ digit) (hhigh : digit ≤ 9) :
    Digits (high ++ integerText digit) ∧ (Decimal.value (high ++ integerText digit) : ℤ) =
        10 * Decimal.value high + digit := by
  obtain ⟨small, rfl⟩ := Int.eq_ofNat_of_zero_le hlow
  have htext : integerText (small : ℤ) = [48 + small] := by
    rw [integerText, if_neg (by omega), Int.natAbs_natCast, Decimal.digitsOf_of_lt (by omega)]
  rw [htext, Decimal.value_concat]
  refine ⟨List.forall_mem_append.mpr ⟨h, ?_⟩, by push_cast; omega⟩
  intro other hother
  obtain rfl := List.mem_singleton.mp hother
  simp only [isDigit, decide_eq_true_eq]
  omega

theorem value_reverse_cons (digits : Text) (h : 48 ≤ digit) :
    (Decimal.value (digit :: digits).reverse : ℤ) =
      10 * Decimal.value digits.reverse + ((digit : ℤ) - 48) := by
  rw [List.reverse_cons, Decimal.value_concat]
  push_cast [Nat.cast_sub h]
  rfl

theorem columns_step {x y carry a b : ℤ} (hx : 0 ≤ x ∧ x ≤ 9)
    (hy : 0 ≤ y ∧ y ≤ 9) (hcarry : Carries subtract carry)
    (htotal : 0 ≤ total subtract (10 * a + x) (10 * b + y) carry)
    (ih : Carries subtract (column subtract x y carry).2 →
      0 ≤ total subtract a b (column subtract x y carry).2 →
      Digits high ∧ (Decimal.value high : ℤ) = total subtract a b (column subtract x y carry).2) :
    Digits (high ++ integerText (column subtract x y carry).1) ∧
      (Decimal.value (high ++ integerText (column subtract x y carry).1) : ℤ) =
        total subtract (10 * a + x) (10 * b + y) carry := by
  obtain ⟨hbounds, hnext, hcolumn⟩ := column_spec subtract hx hy hcarry
  have hsum : total subtract (10 * a + x) (10 * b + y) carry =
      10 * total subtract a b (column subtract x y carry).2 + (column subtract x y carry).1 := by
    cases subtract <;> simp only [total, Bool.false_eq_true, if_false, if_true] at hcolumn ⊢ <;>
      omega
  rw [hsum] at htotal ⊢
  obtain ⟨hdigits, hvalue⟩ := ih hnext (by omega)
  rw [← hvalue]
  exact value_column hdigits hbounds.1 hbounds.2

variable (carry : ℤ)

theorem columns_spec (xs ys : Text) (hx : Digits xs)
    (hy : Digits ys) (hcarry : Carries subtract carry)
    (htotal : 0 ≤ total subtract (Decimal.value xs.reverse) (Decimal.value ys.reverse) carry) :
    Digits (columns subtract carry xs ys) ∧ (Decimal.value (columns subtract carry xs ys) : ℤ) =
        total subtract (Decimal.value xs.reverse) (Decimal.value ys.reverse) carry := by
  fun_induction columns subtract carry xs ys with
  | case1 => cases subtract <;> simp [total, Decimal.value, Digits, isDigit]
  | case2 carry hcarryOut =>
    cases subtract with
    | false =>
      obtain rfl : carry = 0 := hcarry.resolve_right hcarryOut
      simp [total, Digits]
    | true =>
      obtain rfl : carry = 0 := hcarry.resolve_left fun h ↦ by simp [total, h] at htotal
      simp [total, Digits]
  | case3 carry x xs n ih =>
    have hdigit := digit_bounds hx
    rw [value_reverse_cons xs hdigit.1,
      show ((Decimal.value ([] : Text).reverse : ℕ) : ℤ) = 10 * 0 + 0 from rfl] at htotal ⊢
    exact columns_step subtract (by omega) (by omega) hcarry htotal (ih (digits_tail hx) hy)
  | case4 carry y ys n ih =>
    have hdigit := digit_bounds hy
    rw [value_reverse_cons ys hdigit.1,
      show ((Decimal.value ([] : Text).reverse : ℕ) : ℤ) = 10 * 0 + 0 from rfl] at htotal ⊢
    exact columns_step subtract (by omega) (by omega) hcarry htotal (ih hx (digits_tail hy))
  | case5 carry x xs y ys n ih =>
    have hxdigit := digit_bounds hx
    have hydigit := digit_bounds hy
    rw [value_reverse_cons xs hxdigit.1, value_reverse_cons ys hydigit.1] at htotal ⊢
    exact columns_step subtract (by omega) (by omega) hcarry htotal
      (ih (digits_tail hx) (digits_tail hy))

theorem columns_ne_nil {xs ys : Text} (h : xs ≠ [] ∨ ys ≠ []) :
    columns subtract carry xs ys ≠ [] := by
  have hone : ∀ digit : ℤ, integerText digit ≠ [] := by
    intro digit
    unfold integerText
    split
    · exact List.cons_ne_nil _ _
    · exact digitsOf_ne_nil _
  unfold columns
  split
  · simp at h
  all_goals exact List.append_ne_nil_of_right_ne_nil _ (hone _)

theorem unsignedAdd_add {a : Text} (ha : Digits a) (hb : Digits b) (hne : a ≠ []) :
    unsignedAdd a b false = digitsOf (Decimal.value a + Decimal.value b) := by
  have hspec := columns_spec false 0 a.reverse b.reverse
    (fun digit hdigit ↦ ha digit (List.mem_reverse.mp hdigit))
    (fun digit hdigit ↦ hb digit (List.mem_reverse.mp hdigit)) (.inl rfl) (by
      simp only [total, Bool.false_eq_true, if_false]
      omega)
  rw [unsignedAdd, strip_eq hspec.1 (columns_ne_nil _ _ (.inl (by simpa using hne)))]
  congr 1
  have hvalue := hspec.2
  simp only [total, List.reverse_reverse, Bool.false_eq_true, if_false] at hvalue
  omega

theorem unsignedAdd_sub {a : Text} (ha : Digits a) (hb : Digits b) (hne : a ≠ [])
    (hle : Decimal.value b ≤ Decimal.value a) :
    unsignedAdd a b true = digitsOf (Decimal.value a - Decimal.value b) := by
  have hspec := columns_spec true 0 a.reverse b.reverse
    (fun digit hdigit ↦ ha digit (List.mem_reverse.mp hdigit))
    (fun digit hdigit ↦ hb digit (List.mem_reverse.mp hdigit)) (.inr rfl) (by
      simp only [total, if_true, List.reverse_reverse]
      omega)
  rw [unsignedAdd, strip_eq hspec.1 (columns_ne_nil _ _ (.inl (by simpa using hne)))]
  congr 1
  have hvalue := hspec.2
  simp only [total, List.reverse_reverse, if_true] at hvalue
  omega

end Unsigned

variable {number : ℕ}

section Signed

/-- A text of digits behind an optional sign. -/
def IsSigned (s : Text) : Prop :=
  ∃ sign digits, s = sign ++ digits ∧ (sign = [] ∨ sign = [43] ∨ sign = [45]) ∧ Digits digits ∧
    digits ≠ []

theorem isSigned_digits (h : Digits digits) (hne : digits ≠ []) :
    IsSigned digits := ⟨[], digits, rfl, .inl rfl, h, hne⟩

theorem exponentValue_digits (h : Digits digits) : exponentValue digits = Decimal.value digits := by
  cases digits with
  | nil => rfl
  | cons digit digits =>
    have hdigit := digit_bounds h
    rw [exponentValue, if_neg (by omega), if_neg (by omega)]

theorem isSigned_integerText (number : ℤ) : IsSigned (integerText number) := by
  unfold integerText
  split
  · exact ⟨[45], _, rfl, .inr (.inr rfl), isDigit_digitsOf _, digitsOf_ne_nil _⟩
  · exact isSigned_digits (isDigit_digitsOf _) (digitsOf_ne_nil _)

@[simp]
theorem exponentValue_integerText (number : ℤ) : exponentValue (integerText number) = number := by
  unfold integerText
  split
  · rw [exponentValue, if_pos rfl, value_digitsOf]
    omega
  · rw [exponentValue_digits (isDigit_digitsOf _), value_digitsOf]
    omega

theorem integerText_natCast (number : ℕ) : integerText (number : ℤ) = digitsOf number := by
  rw [integerText, if_neg (by omega), Int.natAbs_natCast]

theorem integerText_neg (h : number ≠ 0) : integerText (-(number : ℤ)) = 45 :: digitsOf number := by
  rw [integerText, if_pos (by omega), Int.natAbs_neg, Int.natAbs_natCast]

theorem digitsOf_eq_zero_iff : digitsOf number = [48] ↔ number = 0 := by
  constructor
  · intro h
    have := congrArg Decimal.value h
    rwa [value_digitsOf] at this
  · rintro rfl
    simp [digitsOf]

theorem signed_eq {s : Text} (h : IsSigned s) :
    signed s = ⟨decide (exponentValue s < 0), digitsOf (exponentValue s).natAbs⟩ := by
  obtain ⟨sign, digits, rfl, hsign, hdigits, hne⟩ := h
  have hstrip := strip_eq hdigits hne
  rcases hsign with rfl | rfl | rfl
  · cases hcons : digits with
    | nil => exact absurd hcons hne
    | cons digit rest =>
      have hdigit := digit_bounds (hcons ▸ hdigits)
      have hminus : ¬ digit = 45 := by omega
      have hplus : ¬ digit = 43 := by omega
      rw [← hcons, List.nil_append, exponentValue_digits hdigits]
      simp only [signed, hcons, List.head?_cons, Option.some.injEq, hminus, hplus, or_self, if_false]
      rw [← hcons, hstrip, decide_eq_false (by omega)]
      simp [beq_eq_false_iff_ne.mpr hminus]
  · have hvalue : exponentValue ([43] ++ digits) = Decimal.value digits := rfl
    rw [hvalue]
    simp [signed, hstrip]
  · have hvalue : exponentValue ([45] ++ digits) = -(Decimal.value digits : ℤ) := rfl
    rw [hvalue]
    have hzero : (digitsOf (Decimal.value digits) != [48]) =
        !decide (Decimal.value digits = 0) := by
      rw [Bool.eq_iff_iff]
      simp [digitsOf_eq_zero_iff]
    simp [signed, hstrip, hzero, Nat.pos_iff_ne_zero]

theorem signText_eq {sign number : ℤ} {digits : ℕ} (hzero : sign < 0 → digits ≠ 0)
    (h : number = if sign < 0 then -(digits : ℤ) else digits) :
    signText (decide (sign < 0)) ++ digitsOf digits = integerText number := by
  rw [h]
  by_cases hsign : sign < 0
  · rw [if_pos hsign, integerText_neg (hzero hsign), decide_eq_true hsign]
    rfl
  · rw [if_neg hsign, integerText_natCast, decide_eq_false hsign]
    rfl

theorem addInteger_eq {a : Text} (ha : IsSigned a) (hb : IsSigned b) :
    addInteger a b = integerText (exponentValue a + exponentValue b) := by
  simp only [addInteger, signed_eq ha, signed_eq hb, magnitude_digitsOf]
  generalize exponentValue a = x
  generalize exponentValue b = y
  have hadd := unsignedAdd_add (isDigit_digitsOf x.natAbs)
    (isDigit_digitsOf y.natAbs) (digitsOf_ne_nil _)
  have hsub : ∀ {m n : ℕ}, n ≤ m → unsignedAdd (digitsOf m) (digitsOf n) true =
      digitsOf (m - n) := by
    intro m n hle
    have := unsignedAdd_sub (isDigit_digitsOf m) (isDigit_digitsOf n)
      (digitsOf_ne_nil _) (by simpa using hle)
    simpa using this
  simp only [value_digitsOf] at hadd
  simp only [decide_eq_decide]
  by_cases hsame : (x < 0) ↔ (y < 0)
  · rw [if_pos hsame, hadd]
    exact signText_eq (by omega) (by split <;> omega)
  · rw [if_neg hsame]
    by_cases hzero : ((x.natAbs : ℤ) - y.natAbs).sign = 0
    · have hcancel : x + y = ((0 : ℕ) : ℤ) := by
        rw [Int.sign_eq_zero_iff_zero] at hzero
        omega
      rw [if_pos hzero, hcancel, integerText_natCast, digitsOf_eq_zero_iff.mpr rfl]
    · rw [if_neg hzero]
      rw [Int.sign_eq_zero_iff_zero] at hzero
      by_cases hlarger : 0 < ((x.natAbs : ℤ) - y.natAbs).sign
      · simp only [if_pos hlarger]
        rw [Int.sign_pos_iff] at hlarger
        rw [hsub (by omega)]
        exact signText_eq (by omega) (by split <;> omega)
      · simp only [if_neg hlarger]
        rw [Int.sign_pos_iff] at hlarger
        rw [hsub (by omega)]
        exact signText_eq (by omega) (by split <;> omega)

theorem compareInteger_eq {a : Text} (ha : IsSigned a) (hb : IsSigned b) :
    compareInteger a b = (exponentValue a - exponentValue b).sign := by
  simp only [compareInteger, signed_eq ha, signed_eq hb, magnitude_digitsOf]
  generalize exponentValue a = x
  generalize exponentValue b = y
  simp only [ne_eq, decide_eq_decide, decide_eq_true_eq]
  by_cases hsame : (x < 0) ↔ (y < 0)
  · rw [if_neg (not_not.mpr hsame)]
    by_cases hneg : x < 0
    · rw [if_pos hneg, mul_neg_one, ← Int.sign_neg]
      congr 1
      omega
    · rw [if_neg hneg, mul_one]
      congr 1
      omega
  · rw [if_pos hsame]
    by_cases hneg : x < 0
    · rw [if_pos hneg, Int.sign_eq_neg_one_of_neg (by omega)]
    · rw [if_neg hneg, Int.sign_eq_one_of_pos (by omega)]

end Signed

section Division

variable {a : Text}
variable {n : ℕ}

theorem divideFrom_spec (hn : 0 < n) (h : Digits a) : ∀ remainder : ℕ, remainder < n →
      Digits (divideFrom n remainder a) ∧ (divideFrom n remainder a).length = a.length ∧
        Decimal.value (divideFrom n remainder a) =
          (remainder * 10 ^ a.length + Decimal.value a) / n := by
  induction a with
  | nil =>
    intro remainder hremainder
    simp [divideFrom, Digits, Nat.div_eq_of_lt hremainder]
  | cons digit rest ih =>
    intro remainder hremainder
    have hdigit := digit_bounds h
    obtain ⟨hdigits, hlength, hvalue⟩ := ih (digits_tail h) _ (Nat.mod_lt
      (remainder * 10 + (digit - 48)) hn)
    have hquotient : (remainder * 10 + (digit - 48)) / n < 10 := by
      rw [Nat.div_lt_iff_lt_mul hn]
      omega
    simp only [divideFrom, Decimal.digitsOf_of_lt hquotient, List.singleton_append,
      List.length_cons, hlength, Decimal.value_cons, hvalue, true_and]
    constructor
    · intro other hother
      rcases List.mem_cons.mp hother with rfl | hother
      · simp only [isDigit, decide_eq_true_eq]
        exact ⟨Nat.le_add_right _ _, by omega⟩
      · exact hdigits other hother
    · have hsplit : remainder * 10 ^ (rest.length + 1) +
          ((digit - 48) * 10 ^ rest.length + Decimal.value rest) =
          n * ((remainder * 10 + (digit - 48)) / n * 10 ^ rest.length) +
            ((remainder * 10 + (digit - 48)) % n * 10 ^ rest.length + Decimal.value rest) := by
        have hdivision := Nat.div_add_mod (remainder * 10 + (digit - 48)) n
        calc remainder * 10 ^ (rest.length + 1) +
              ((digit - 48) * 10 ^ rest.length + Decimal.value rest)
            = (remainder * 10 + (digit - 48)) * 10 ^ rest.length + Decimal.value rest := by ring
          _ = (n * ((remainder * 10 + (digit - 48)) / n) +
                (remainder * 10 + (digit - 48)) % n) * 10 ^ rest.length +
                Decimal.value rest := by rw [hdivision]
          _ = _ := by ring
      rw [hsplit, Nat.mul_add_div hn, Nat.add_sub_cancel_left]

theorem divideSmall_eq (hn : 0 < n) (h : Digits a) (hne : a ≠ []) :
    divideSmall a n = digitsOf (Decimal.value a / n) := by
  obtain ⟨hdigits, hlength, hvalue⟩ := divideFrom_spec hn h 0 hn
  have hquotient : divideFrom n 0 a ≠ [] := by
    intro hnil
    rw [hnil] at hlength
    exact hne (List.length_eq_zero_iff.mp hlength.symm)
  rw [divideSmall, strip_eq hdigits hquotient, hvalue]
  simp

theorem endsEven_digitsOf (number : ℕ) : endsEven (digitsOf number) = true ↔ 2 ∣ number := by
  rw [endsEven, Decimal.getLast?_digitsOf]
  simp only [beq_iff_eq]
  omega

theorem endsFive_digitsOf (number : ℕ) : endsFive (digitsOf number) = true ↔ number % 10 = 5 := by
  rw [endsFive, Decimal.getLast?_digitsOf]
  simp only [beq_iff_eq, Option.some.injEq]
  omega

theorem divideCounted_spec (hn : 1 < n) (condition : Text → Bool)
    (hcondition : ∀ number, condition (digitsOf number) = true → n ∣ number) (hzero : number ≠ 0) :
    ∃ rest count, runWhile (fun state ↦ condition state.1) (divideCounted n)
        (Decimal.value (digitsOf number)) (digitsOf number, 0) =
        some (digitsOf rest, count) ∧ number = rest * n ^ count ∧
      condition (digitsOf rest) = false := by
  obtain ⟨final, hrun, ⟨rest, hfinal, hrest⟩, hstop⟩ := runWhile_total
    (fun state : Text × ℕ ↦ condition state.1) (divideCounted n)
    (fun state ↦ ∃ rest, state.1 = digitsOf rest ∧ number = rest * n ^ state.2)
    (fun state ↦ Decimal.value state.1)
    (by
      rintro ⟨text, count⟩ ⟨rest, rfl, hrest⟩ htrue
      obtain ⟨quotient, rfl⟩ := hcondition rest htrue
      have hquotient : divideSmall (digitsOf (n * quotient)) n = digitsOf quotient := by
        rw [divideSmall_eq (by omega) (isDigit_digitsOf _) (digitsOf_ne_nil _),
          value_digitsOf, Nat.mul_div_cancel_left _ (by omega)]
      have hpositive : 0 < quotient := by
        apply Nat.pos_of_ne_zero
        rintro rfl
        exact hzero (by simpa using hrest)
      refine ⟨⟨quotient, hquotient, ?_⟩, ?_⟩
      · rw [hrest]
        simp only [divideCounted, pow_succ]
        ring
      · simp only [divideCounted, hquotient, value_digitsOf]
        exact lt_mul_of_one_lt_left hpositive hn)
    (show ∃ rest, (digitsOf number, 0).1 = digitsOf rest ∧
      number = rest * n ^ (digitsOf number, 0).2 from ⟨number, rfl, by simp⟩) le_rfl
  obtain ⟨text, count⟩ := final
  obtain rfl : text = digitsOf rest := hfinal
  exact ⟨rest, count, hrun, hrest, hstop⟩

theorem factor_eq (hzero : number ≠ 0) :
    ∃ rest two five, factor (digitsOf number) = some ⟨digitsOf rest, two, five⟩ ∧
      number = rest * (2 ^ two * 5 ^ five) ∧ rest.Coprime 10 := by
  obtain ⟨odd, two, htwo, hodd, hoddStop⟩ := divideCounted_spec
    (by decide : 1 < 2) endsEven (fun number ↦ (endsEven_digitsOf number).mp) hzero
  have hoddZero : odd ≠ 0 := by
    rintro rfl
    simp at hodd
    exact hzero hodd
  obtain ⟨rest, five, hfive, hrest, hrestStop⟩ := divideCounted_spec
    (by decide : 1 < 5) endsFive (fun number h ↦ by
      have := (endsFive_digitsOf number).mp h
      omega) hoddZero
  have hnotEven : ¬ 2 ∣ odd := by
    rw [← endsEven_digitsOf, hoddStop]
    exact Bool.false_ne_true
  have hnotFive : ¬ rest % 10 = 5 := by
    rw [← endsFive_digitsOf, hrestStop]
    exact Bool.false_ne_true
  have hrestOdd : ¬ 2 ∣ rest := fun h ↦ hnotEven (hrest ▸ Dvd.dvd.mul_right h _)
  refine ⟨rest, two, five, ?_, ?_, ?_⟩
  · simp only [factor, htwo, Option.bind_eq_bind, Option.bind_some, hfive]
    rfl
  · rw [hodd, hrest]
    ring
  · rw [show (10 : ℕ) = 2 * 5 from rfl]
    apply Nat.Coprime.mul_right
    · exact ((Nat.Prime.coprime_iff_not_dvd Nat.prime_two).mpr hrestOdd).symm
    · refine ((Nat.Prime.coprime_iff_not_dvd Nat.prime_five).mpr fun h ↦ ?_).symm
      omega

theorem reduce_eq {b : ℕ} (hb : 0 < b) (remainder : ℕ) : reduce (digitsOf remainder) (digitsOf b) =
      some (digitsOf (remainder % b)) := by
  obtain ⟨final, hrun, ⟨rest, rfl, hrest⟩, hstop⟩ := runWhile_total
    (fun remainder ↦ decide (0 ≤ magnitude remainder (digitsOf b)))
    (fun remainder ↦ unsignedAdd remainder (digitsOf b) true)
    (fun text ↦ ∃ rest, text = digitsOf rest ∧ rest % b = remainder % b) Decimal.value
    (by
      rintro text ⟨rest, rfl, hrest⟩ htrue
      rw [decide_eq_true_eq, magnitude_digitsOf, Int.sign_nonneg_iff] at htrue
      have hle : b ≤ rest := by omega
      have hsub := unsignedAdd_sub (isDigit_digitsOf rest) (isDigit_digitsOf b)
        (digitsOf_ne_nil _) (by simpa using hle)
      simp only [value_digitsOf] at hsub
      refine ⟨⟨rest - b, hsub, ?_⟩, ?_⟩
      · rw [← Nat.mod_eq_sub_mod hle, hrest]
      · rw [hsub, value_digitsOf, value_digitsOf]
        omega)
    (show ∃ rest, digitsOf remainder = digitsOf rest ∧ rest % b = remainder % b
      from ⟨remainder, rfl, rfl⟩) le_rfl
  rw [decide_eq_false_iff_not, magnitude_digitsOf, Int.sign_nonneg_iff] at hstop
  rw [reduce, hrun, ← hrest, Nat.mod_eq_of_lt (by omega)]

theorem divisibleFrom_eq {b : ℕ} (hb : 0 < b) (h : Digits a) : ∀ remainder : ℕ, remainder < b →
      divisibleFrom (digitsOf b) (digitsOf remainder) a =
        some (decide (b ∣ remainder * 10 ^ a.length + Decimal.value a)) := by
  induction a with
  | nil =>
    intro remainder hremainder
    have hdvd : b ∣ remainder ↔ remainder = 0 :=
      ⟨fun hdvd ↦ Nat.eq_zero_of_dvd_of_lt hdvd hremainder, fun hzero ↦ hzero ▸ dvd_zero b⟩
    simp [divisibleFrom, digitsOf_eq_zero_iff, hdvd]
  | cons digit rest ih =>
    intro remainder hremainder
    have hdigit := digit_bounds h
    have hnext : strip (if digitsOf remainder = [48] then [digit]
        else digitsOf remainder ++ [digit]) =
        digitsOf (10 * remainder + (digit - 48)) := by
      have hsingle : Digits [digit] := fun other hother ↦ by
        rw [List.mem_singleton.mp hother]
        exact h digit List.mem_cons_self
      split
      · next hzero =>
        rw [strip_eq hsingle (List.cons_ne_nil _ _), digitsOf_eq_zero_iff.mp hzero]
        simp [Decimal.value]
      · rw [strip_eq (List.forall_mem_append.mpr ⟨isDigit_digitsOf _, hsingle⟩)
            (List.append_ne_nil_of_right_ne_nil _ (List.cons_ne_nil _ _)),
          Decimal.value_concat, value_digitsOf]
    rw [divisibleFrom, hnext, reduce_eq hb, Option.bind_eq_bind, Option.bind_some,
      ih (digits_tail h) _ (Nat.mod_lt _ hb), Decimal.value_cons, List.length_cons]
    congr 1
    rw [decide_eq_decide, Nat.dvd_iff_mod_eq_zero, Nat.dvd_iff_mod_eq_zero]
    rw [show remainder * 10 ^ (rest.length + 1) + ((digit - 48) * 10 ^ rest.length +
        Decimal.value rest) = (10 * remainder + (digit - 48)) * 10 ^ rest.length +
        Decimal.value rest by ring]
    rw [Nat.add_mod, Nat.mul_mod, Nat.mod_mod, ← Nat.mul_mod, ← Nat.add_mod]

theorem divisible_eq {b : ℕ} (hb : 0 < b) (h : Digits a) :
    divisible a (digitsOf b) = some (decide (b ∣ Decimal.value a)) := by
  unfold divisible
  by_cases hone : digitsOf b = [49]
  · have hvalue := congrArg Decimal.value hone
    rw [value_digitsOf] at hvalue
    obtain rfl : b = 1 := hvalue
    simp [hone]
  · rw [if_neg hone, ← digitsOf_eq_zero_iff.mpr rfl, divisibleFrom_eq hb h 0 hb]
    simp

end Division

end Bdp.Schema
