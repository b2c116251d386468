import Bdp.Library.Decimal

/-!
# Order, fractions and divisors of digit texts

Digit texts of one length are ordered by their values, shorter texts without leading zeros come
first, and a text behind the point is a fraction below one. Numbers without the factors two and
five decide which multiples of powers of two and five are integers. The loops of digit arithmetic
run with fuel; a measure that falls tells how much they need.
-/

namespace Bdp

/-- A loop that runs while its condition holds; none when the fuel runs out first. -/
def runWhile {σ : Type*} (condition : σ → Bool) (body : σ → σ) : ℕ → σ → Option σ
  | 0, state => if condition state then none else some state
  | fuel + 1, state =>
    if condition state then runWhile condition body fuel (body state) else some state

/-- A loop whose measure falls ends, keeps its invariant and fails its condition at the end. -/
theorem runWhile_total {σ : Type*} (condition : σ → Bool) (body : σ → σ) (invariant : σ → Prop)
    (measure : σ → ℕ)
    (hstep : ∀ state, invariant state → condition state = true →
      invariant (body state) ∧ measure (body state) < measure state) :
    ∀ {fuel : ℕ} {state : σ}, invariant state → measure state ≤ fuel →
      ∃ final, runWhile condition body fuel state = some final ∧ invariant final ∧
        condition final = false := by
  intro fuel
  induction fuel with
  | zero =>
    intro state hinvariant hmeasure
    cases hcondition : condition state with
    | false => exact ⟨state, by simp [runWhile, hcondition], hinvariant, hcondition⟩
    | true =>
      have := (hstep state hinvariant hcondition).2
      omega
  | succ fuel ih =>
    intro state hinvariant hmeasure
    cases hcondition : condition state with
    | false => exact ⟨state, by simp [runWhile, hcondition], hinvariant, hcondition⟩
    | true =>
      obtain ⟨hnext, hfall⟩ := hstep state hinvariant hcondition
      obtain ⟨final, hrun, hfinal⟩ := ih hnext (by omega)
      exact ⟨final, by simp [runWhile, hcondition, hrun], hfinal⟩

namespace Decimal

variable {digits : Text}

section Texts

theorem value_concat (digits : Text) (digit : ℕ) :
    value (digits ++ [digit]) = 10 * value digits + (digit - 48) := by
  rw [value_append]
  simp [value, Nat.mul_comm]

/-- A text without leading zeros is the text of its value. -/
theorem Leading.eq_digitsOf (h : Leading digits) (hne : digits ≠ []) :
    digits = digitsOf (value digits) := by
  have hvalue : value digits ≠ 0 := by
    rw [Ne, value_eq_zero_iff h.1]
    cases digits with
    | nil => exact absurd rfl hne
    | cons digit digits =>
      have hdigit : digit ≠ 48 := fun hzero ↦ h.2 (by simp [hzero])
      simp [dropZeros, hdigit]
  exact h.value_injective (leading_digitsOf hvalue) (by rw [value_digitsOf])

theorem digitsOf_of_lt {digit : ℕ} (h : digit < 10) : digitsOf digit = [48 + digit] := by
  by_cases hzero : digit = 0
  · simp [digitsOf, hzero]
  · simp [digitsOf, hzero, Nat.digits_of_lt 10 digit hzero h]

/-- The last digit of a number is its remainder by ten. -/
theorem getLast?_digitsOf (number : ℕ) : (digitsOf number).getLast? = some (48 + number % 10) := by
  by_cases hzero : number = 0
  · simp [digitsOf, hzero]
  · rw [digitsOf, if_neg hzero, List.getLast?_map, List.getLast?_reverse,
      Nat.digits_def' (by decide) (Nat.pos_of_ne_zero hzero)]
    rfl

end Texts

variable {right left : ℕ}

section Order

/-- Digits of one length are ordered by their value. -/
theorem lt_iff_value_lt : ∀ {left right : Text}, (∀ digit ∈ left, isDigit digit = true) →
    (∀ digit ∈ right, isDigit digit = true) → left.length = right.length →
    (left < right ↔ value left < value right)
  | [], [], _, _, _ => by simp
  | [], _ :: _, _, _, h => by simp at h
  | _ :: _, [], _, _, h => by simp at h
  | x :: xs, y :: ys, hx, hy, hlength => by
    have hxs : ∀ digit ∈ xs, isDigit digit = true :=
      fun digit hdigit ↦ hx digit (List.mem_cons_of_mem _ hdigit)
    have hys : ∀ digit ∈ ys, isDigit digit = true :=
      fun digit hdigit ↦ hy digit (List.mem_cons_of_mem _ hdigit)
    have hlength : xs.length = ys.length := by simpa using hlength
    have ih := lt_iff_value_lt hxs hys hlength
    have hdx := hx x List.mem_cons_self
    have hdy := hy y List.mem_cons_self
    simp only [isDigit, decide_eq_true_eq] at hdx hdy
    have hltx := hlength ▸ value_lt hxs
    have hlty := value_lt hys
    rw [List.cons_lt_cons_iff, ih, value_cons, value_cons, hlength]
    generalize 10 ^ ys.length = power at *
    rcases lt_trichotomy x y with hlt | rfl | hgt
    · have hscaled : (x - 48 + 1) * power ≤ (y - 48) * power := Nat.mul_le_mul_right _ (by omega)
      rw [Nat.add_mul, Nat.one_mul] at hscaled
      exact ⟨fun _ ↦ by omega, fun _ ↦ .inl hlt⟩
    · simp
    · have hscaled : (y - 48 + 1) * power ≤ (x - 48) * power := Nat.mul_le_mul_right _ (by omega)
      rw [Nat.add_mul, Nat.one_mul] at hscaled
      constructor
      · rintro (hlt | ⟨rfl, _⟩) <;> omega
      · intro hlt
        omega

theorem pow_le_of_digitsOf {number : ℕ} (h : 1 < (digitsOf number).length) :
    10 ^ ((digitsOf number).length - 1) ≤ number := by
  have hzero : number ≠ 0 := by
    rintro rfl
    simp [digitsOf] at h
  cases hdigits : digitsOf number with
  | nil => exact absurd hdigits (digitsOf_ne_nil number)
  | cons digit digits =>
    have hleading := hdigits ▸ leading_digitsOf hzero
    have hpow : 10 ^ digits.length ≤ value (digit :: digits) :=
      pow_le_value (hleading.1 digit List.mem_cons_self) fun h ↦ hleading.2 (by simp [h])
    rw [← hdigits, value_digitsOf] at hpow
    simpa using hpow

/-- The shorter decimal text is the smaller number. -/
theorem lt_of_length_lt (h : (digitsOf left).length < (digitsOf right).length) : left < right := by
  have hleft := value_lt (isDigit_digitsOf left)
  rw [value_digitsOf] at hleft
  have hpositive : 0 < (digitsOf left).length := List.length_pos_iff.mpr (digitsOf_ne_nil left)
  calc left < 10 ^ (digitsOf left).length := hleft
    _ ≤ 10 ^ ((digitsOf right).length - 1) := Nat.pow_le_pow_right (by decide) (by omega)
    _ ≤ right := pow_le_of_digitsOf (by omega)

end Order

section Fractions

/-- The number that digits spell behind a point. -/
def fraction (digits : Text) : ℚ := value digits / 10 ^ digits.length

@[simp]
theorem fraction_nil : fraction [] = 0 := by simp [fraction]

theorem fraction_cons (digit : ℕ) (digits : Text) :
    fraction (digit :: digits) = (((digit - 48 : ℕ) : ℚ) + fraction digits) / 10 := by
  have hne : (10 : ℚ) ^ digits.length ≠ 0 := pow_ne_zero _ (by norm_num)
  rw [fraction, fraction, value_cons, List.length_cons, pow_succ]
  push_cast
  field_simp

theorem fraction_nonneg (digits : Text) : 0 ≤ fraction digits := by
  unfold fraction
  positivity

theorem fraction_lt_one (h : ∀ digit ∈ digits, isDigit digit = true) : fraction digits < 1 := by
  rw [fraction, div_lt_one (by positivity)]
  exact_mod_cast value_lt h

/-- Without a leading zero a fraction is at least a tenth. -/
theorem tenth_le_fraction (h : Leading digits) (hne : digits ≠ []) : 1 / 10 ≤ fraction digits := by
  cases digits with
  | nil => exact absurd rfl hne
  | cons digit digits =>
    have hdigit := h.1 digit List.mem_cons_self
    have hzero : digit ≠ 48 := fun hzero ↦ h.2 (by simp [hzero])
    simp only [isDigit, decide_eq_true_eq] at hdigit
    have hone : (1 : ℚ) ≤ ((digit - 48 : ℕ) : ℚ) := by exact_mod_cast (by omega : 1 ≤ digit - 48)
    have hrest := fraction_nonneg digits
    rw [fraction_cons]
    linarith

/-- A coefficient at a power of ten is its fraction at the power that counts its digits too. -/
theorem value_mul_zpow (digits : Text) (exponent : ℤ) : (value digits : ℚ) * 10 ^ exponent =
      fraction digits * 10 ^ (exponent + (digits.length : ℤ)) := by
  have hne : (10 : ℚ) ^ digits.length ≠ 0 := pow_ne_zero _ (by norm_num)
  rw [fraction, zpow_add₀ (by norm_num), zpow_natCast]
  field_simp

/-- Fractions of at least a tenth are ordered by their powers of ten first. -/
theorem fraction_mul_lt {left right : ℚ} {low high : ℤ} (hleft : left < 1)
    (hright : 1 / 10 ≤ right) (h : low < high) : left * 10 ^ low < right * 10 ^ high := by
  have hlow : (0 : ℚ) < 10 ^ low := by positivity
  have hpower : (10 : ℚ) ^ (low + 1) ≤ 10 ^ high := zpow_le_zpow_right₀ (by norm_num) (by omega)
  rw [zpow_add₀ (by norm_num), zpow_one] at hpower
  have hscaled : 1 / 10 * (10 : ℚ) ^ high ≤ right * 10 ^ high :=
    mul_le_mul_of_nonneg_right hright (by positivity)
  calc left * 10 ^ low < 1 * 10 ^ low := mul_lt_mul_of_pos_right hleft hlow
    _ ≤ right * 10 ^ high := by linarith

end Fractions

section Divisors

theorem zpow_mul_toNat_neg {base : ℚ} (h : base ≠ 0) (exponent : ℤ) :
    base ^ exponent * base ^ (-exponent).toNat = base ^ exponent.toNat := by
  rw [← zpow_natCast base (-exponent).toNat, ← zpow_natCast base exponent.toNat, ← zpow_add₀ h]
  congr 1
  omega

/-- A number without the factor ten is an integer at a power of ten exactly when the power is not
negative. -/
theorem isInt_mul_zpow_iff {digits : ℕ} (h : ¬ 10 ∣ digits) (exponent : ℤ) :
    (∃ number : ℤ, (digits : ℚ) * 10 ^ exponent = number) ↔ 0 ≤ exponent := by
  constructor
  · rintro ⟨number, hnumber⟩
    by_contra hnegative
    have hscaled : (digits : ℚ) = number * 10 ^ (-exponent).toNat := by
      rw [← hnumber, mul_assoc, zpow_mul_toNat_neg (by norm_num), Int.toNat_of_nonpos (by omega)]
      simp
    have hint : (digits : ℤ) = number * 10 ^ (-exponent).toNat := by exact_mod_cast hscaled
    have hdvd : (10 : ℤ) ∣ digits := by
      rw [hint]
      exact Dvd.dvd.mul_left (dvd_pow_self 10 (by omega)) number
    exact h (by exact_mod_cast hdvd)
  · intro hnonneg
    refine ⟨digits * 10 ^ exponent.toNat, ?_⟩
    obtain ⟨power, rfl⟩ := Int.eq_ofNat_of_zero_le hnonneg
    simp

/-- Without the factors two and five, a number at powers of them is an integer multiple of another
exactly when it is a multiple of it and neither power is negative. -/
theorem isMultiple_iff (hleft : left.Coprime 10) (hright : right.Coprime 10) (two five : ℤ) :
    (∃ factor : ℤ, (left : ℚ) * (2 ^ two * 5 ^ five) = factor * right) ↔
      0 ≤ two ∧ 0 ≤ five ∧ right ∣ left := by
  constructor
  · rintro ⟨factor, hfactor⟩
    have hint : (left : ℤ) * (2 ^ two.toNat * 5 ^ five.toNat) =
        factor * right * (2 ^ (-two).toNat * 5 ^ (-five).toNat) := by
      have hrat : (left : ℚ) * (2 ^ two.toNat * 5 ^ five.toNat) =
          factor * right * (2 ^ (-two).toNat * 5 ^ (-five).toNat) := by
        rw [← hfactor, ← zpow_mul_toNat_neg (by norm_num) two,
          ← zpow_mul_toNat_neg (by norm_num) five]
        ring
      exact_mod_cast hrat
    have htwo : IsCoprime (2 : ℤ) left := by
      rw [Int.isCoprime_iff_gcd_eq_one]
      exact (Nat.Coprime.coprime_dvd_right (by decide : 2 ∣ 10) hleft).symm
    have hfive : IsCoprime (5 : ℤ) left := by
      rw [Int.isCoprime_iff_gcd_eq_one]
      exact (Nat.Coprime.coprime_dvd_right (by decide : 5 ∣ 10) hleft).symm
    have hcross : IsCoprime (2 : ℤ) 5 := ⟨-2, 1, by norm_num⟩
    have htwoNonneg : 0 ≤ two := by
      by_contra hnegative
      rw [Int.toNat_of_nonpos (by omega : two ≤ 0), pow_zero, one_mul] at hint
      have hdvd : (2 : ℤ) ∣ left * 5 ^ five.toNat := by
        rw [hint]
        exact Dvd.dvd.mul_left (Dvd.dvd.mul_right (dvd_pow_self 2 (by omega)) _) _
      have := (htwo.mul_right hcross.pow_right).isUnit_of_dvd' dvd_rfl hdvd
      exact absurd (Int.isUnit_iff.mp this) (by decide)
    have hfiveNonneg : 0 ≤ five := by
      by_contra hnegative
      rw [Int.toNat_of_nonpos (by omega : five ≤ 0), pow_zero, mul_one] at hint
      have hdvd : (5 : ℤ) ∣ left * 2 ^ two.toNat := by
        rw [hint]
        exact Dvd.dvd.mul_left (Dvd.dvd.mul_left (dvd_pow_self 5 (by omega)) _) _
      have := (hfive.mul_right hcross.symm.pow_right).isUnit_of_dvd' dvd_rfl hdvd
      exact absurd (Int.isUnit_iff.mp this) (by decide)
    refine ⟨htwoNonneg, hfiveNonneg, ?_⟩
    rw [Int.toNat_of_nonpos (by omega : -two ≤ 0), Int.toNat_of_nonpos (by omega : -five ≤ 0),
      pow_zero, pow_zero, mul_one, mul_one] at hint
    have hdvd : right ∣ left * (2 ^ two.toNat * 5 ^ five.toNat) := by
      have : (right : ℤ) ∣ left * (2 ^ two.toNat * 5 ^ five.toNat) := ⟨factor, by rw [hint]; ring⟩
      exact_mod_cast this
    have hcoprime : right.Coprime (2 ^ two.toNat * 5 ^ five.toNat) :=
      Nat.Coprime.mul_right
        (Nat.Coprime.pow_right _ (Nat.Coprime.coprime_dvd_right (by decide : 2 ∣ 10) hright))
        (Nat.Coprime.pow_right _ (Nat.Coprime.coprime_dvd_right (by decide : 5 ∣ 10) hright))
    exact hcoprime.dvd_of_dvd_mul_right hdvd
  · rintro ⟨htwo, hfive, quotient, rfl⟩
    obtain ⟨two, rfl⟩ := Int.eq_ofNat_of_zero_le htwo
    obtain ⟨five, rfl⟩ := Int.eq_ofNat_of_zero_le hfive
    refine ⟨quotient * 2 ^ two * 5 ^ five, ?_⟩
    push_cast
    simp only [zpow_natCast]
    ring

/-- The factors two and five of both numbers go into the powers. -/
theorem isMultiple_scaled_iff (hleft : left.Coprime 10) (hright : right.Coprime 10)
    (two five two' five' : ℕ) (e f : ℤ) :
    (∃ factor : ℤ, ((left * (2 ^ two * 5 ^ five) : ℕ) : ℚ) * 10 ^ e =
        factor * (((right * (2 ^ two' * 5 ^ five') : ℕ) : ℚ) * 10 ^ f)) ↔
      0 ≤ e + -f + (two - two') ∧ 0 ≤ e + -f + (five - five') ∧ right ∣ left := by
  have hten : ∀ power : ℤ, (10 : ℚ) ^ power = 2 ^ power * 5 ^ power := by
    intro power
    rw [← mul_zpow]
    norm_num
  have hjoin : ∀ (base : ℚ) (count count' : ℕ), base ≠ 0 →
      base ^ (e + -f + (count - count') : ℤ) * (base ^ count' * base ^ f) =
        base ^ count * base ^ e := by
    intro base count count' hbase
    rw [← zpow_natCast base count', ← zpow_natCast base count, ← zpow_add₀ hbase,
      ← zpow_add₀ hbase, ← zpow_add₀ hbase]
    congr 1
    ring
  have htwo := hjoin 2 two two' (by norm_num)
  have hfive := hjoin 5 five five' (by norm_num)
  have hne : (2 : ℚ) ^ two' * 2 ^ f * (5 ^ five' * 5 ^ f) ≠ 0 := by positivity
  have hl : ((left * (2 ^ two * 5 ^ five) : ℕ) : ℚ) * 10 ^ e =
      left * (2 ^ (e + -f + (two - two') : ℤ) * 5 ^ (e + -f + (five - five') : ℤ)) *
        (2 ^ two' * 2 ^ f * (5 ^ five' * 5 ^ f)) := by
    calc ((left * (2 ^ two * 5 ^ five) : ℕ) : ℚ) * 10 ^ e
        = left * ((2 ^ two * 2 ^ e) * (5 ^ five * 5 ^ e)) := by
          rw [hten]
          push_cast
          ring
      _ = left * ((2 ^ (e + -f + (two - two') : ℤ) * (2 ^ two' * 2 ^ f)) *
            (5 ^ (e + -f + (five - five') : ℤ) * (5 ^ five' * 5 ^ f))) := by rw [htwo, hfive]
      _ = _ := by ring
  have hr : ∀ factor : ℤ, factor * (((right * (2 ^ two' * 5 ^ five') : ℕ) : ℚ) * 10 ^ f) =
      factor * right * (2 ^ two' * 2 ^ f * (5 ^ five' * 5 ^ f)) := by
    intro factor
    rw [hten]
    push_cast
    ring
  rw [← isMultiple_iff hleft hright]
  apply exists_congr
  intro factor
  rw [hl, hr]
  exact mul_left_inj' hne

end Divisors

end Decimal

end Bdp
