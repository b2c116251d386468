import Bdp.Library.CodeUnits

/-!
# Decimal digit texts

The value of a text of decimal digits, the digits that matter once leading and trailing zeros are
taken off, and the uniqueness of the normal form `± digits * 10 ^ exponent`: two normal forms of
one rational agree in sign, digits and exponent.
-/

namespace Bdp.Decimal

def isDigit (unit : ℕ) : Bool := decide (48 ≤ unit ∧ unit ≤ 57)

/-- The natural number that a text of digits spells. -/
def value (digits : Text) : ℕ := digits.foldl (fun value digit ↦ 10 * value + (digit - 48)) 0

/-- Decimal text of a natural number. -/
def digitsOf (number : ℕ) : Text :=
  if number = 0 then [48] else (Nat.digits 10 number).reverse.map (48 + ·)

/-- Decimal text of an integer. -/
def integerText (number : ℤ) : Text :=
  if number < 0 then 45 :: digitsOf number.natAbs else digitsOf number.natAbs

def dropZeros (digits : Text) : Text := digits.dropWhile (· == 48)

def trailingZeros (digits : Text) : ℕ := (digits.reverse.takeWhile (· == 48)).length

section Value

@[simp]
theorem value_nil : value [] = 0 := rfl

theorem value_append (digits more : Text) :
    value (digits ++ more) = value digits * 10 ^ more.length + value more := by
  induction more using List.reverseRecOn with
  | nil => simp
  | append_singleton more digit ih =>
    simp only [value, ← List.append_assoc, List.foldl_concat, List.length_append,
      List.length_singleton] at ih ⊢
    rw [ih, pow_succ]
    ring

theorem value_cons (digit : ℕ) (digits : Text) :
    value (digit :: digits) = (digit - 48) * 10 ^ digits.length + value digits := by
  have h := value_append [digit] digits
  simpa [value] using h

variable {digits : Text}

theorem value_lt (h : ∀ digit ∈ digits, isDigit digit = true) :
    value digits < 10 ^ digits.length := by
  induction digits with
  | nil => simp
  | cons digit digits ih =>
    rw [value_cons, List.length_cons, pow_succ]
    have hdigit := h digit List.mem_cons_self
    have hrest := ih fun other hother ↦ h other (List.mem_cons_of_mem _ hother)
    simp only [isDigit, decide_eq_true_eq] at hdigit
    calc (digit - 48) * 10 ^ digits.length + value digits
        < (digit - 48) * 10 ^ digits.length + 10 ^ digits.length := Nat.add_lt_add_left hrest _
      _ = (digit - 48 + 1) * 10 ^ digits.length := by ring
      _ ≤ 10 * 10 ^ digits.length := Nat.mul_le_mul_right _ (by omega)
      _ = 10 ^ digits.length * 10 := Nat.mul_comm _ _

theorem value_dropZeros (digits : Text) : value (dropZeros digits) = value digits := by
  induction digits with
  | nil => rfl
  | cons digit digits ih =>
    unfold dropZeros at ih ⊢
    by_cases h : digit = 48
    · subst h
      simp [value_cons, ih]
    · simp [h]

/-- Digits of the same length are told apart by their value. -/
theorem value_injective_of_length : ∀ {left right : Text},
    (∀ digit ∈ left, isDigit digit = true) → (∀ digit ∈ right, isDigit digit = true) →
    left.length = right.length → value left = value right → left = right
  | [], [], _, _, _, _ => rfl
  | [], _ :: _, _, _, h, _ => by simp at h
  | _ :: _, [], _, _, h, _ => by simp at h
  | x :: xs, y :: ys, hx, hy, hlength, h => by
    have hxs : ∀ digit ∈ xs, isDigit digit = true :=
      fun digit hdigit ↦ hx digit (List.mem_cons_of_mem _ hdigit)
    have hys : ∀ digit ∈ ys, isDigit digit = true :=
      fun digit hdigit ↦ hy digit (List.mem_cons_of_mem _ hdigit)
    have hlength : xs.length = ys.length := by simpa using hlength
    have hdx := hx x List.mem_cons_self
    have hdy := hy y List.mem_cons_self
    simp only [isDigit, decide_eq_true_eq] at hdx hdy
    rw [value_cons, value_cons, hlength] at h
    have hltx := hlength ▸ value_lt hxs
    have hlty := value_lt hys
    have hpos : 0 < 10 ^ ys.length := Nat.pow_pos (by decide)
    have hdiv := congrArg (· / 10 ^ ys.length) h
    have hmod := congrArg (· % 10 ^ ys.length) h
    simp only [Nat.mul_comm _ (10 ^ ys.length), Nat.mul_add_div hpos, Nat.div_eq_of_lt hltx,
      Nat.div_eq_of_lt hlty, Nat.mul_add_mod, Nat.mod_eq_of_lt hltx, Nat.mod_eq_of_lt hlty,
      Nat.add_zero] at hdiv hmod
    have htail : xs = ys := value_injective_of_length hxs hys hlength hmod
    rw [htail, show x = y by omega]

theorem pow_le_value {digit : ℕ} (hdigit : isDigit digit = true)
    (hzero : digit ≠ 48) : 10 ^ digits.length ≤ value (digit :: digits) := by
  simp only [isDigit, decide_eq_true_eq] at hdigit
  rw [value_cons]
  calc 10 ^ digits.length = 1 * 10 ^ digits.length := (Nat.one_mul _).symm
    _ ≤ (digit - 48) * 10 ^ digits.length := Nat.mul_le_mul_right _ (by omega)
    _ ≤ _ := Nat.le_add_right _ _

/-- Digits that do not start with a zero. -/
def Leading (digits : Text) : Prop :=
  (∀ digit ∈ digits, isDigit digit = true) ∧ digits.head? ≠ some 48

/-- Digits without leading zeros are told apart by their value. -/
theorem Leading.value_injective {left right : Text} (hleft : Leading left)
    (hright : Leading right) (h : value left = value right) : left = right := by
  have hbound : ∀ {digits : Text}, Leading digits → digits ≠ [] →
      10 ^ (digits.length - 1) ≤ value digits := by
    intro digits hdigits hne
    cases digits with
    | nil => exact absurd rfl hne
    | cons digit digits =>
      exact pow_le_value (hdigits.1 digit List.mem_cons_self) fun hzero ↦ hdigits.2 (by simp [hzero])
  have hlength : ∀ {left right : Text}, Leading left → Leading right →
      value left = value right → left.length ≤ right.length := by
    intro left right hleft hright h
    cases left with
    | nil => simp
    | cons digit digits =>
      have hlow := hbound hleft (List.cons_ne_nil _ _)
      have hhigh := h ▸ value_lt hright.1
      have hlt := (Nat.pow_lt_pow_iff_right (by decide : 1 < 10)).mp (hlow.trans_lt hhigh)
      simpa using hlt
  exact value_injective_of_length hleft.1 hright.1
    (Nat.le_antisymm (hlength hleft hright h) (hlength hright hleft h.symm)) h

section

variable (h : ∀ digit ∈ digits, isDigit digit = true)
include h

theorem leading_dropZeros : Leading (dropZeros digits) := by
  refine ⟨fun digit hdigit ↦ h digit ((List.dropWhile_suffix _).subset hdigit), ?_⟩
  induction digits with
  | nil => simp [dropZeros]
  | cons digit digits ih =>
    by_cases hzero : digit = 48
    · subst hzero
      simpa [dropZeros] using ih fun other hother ↦ h other (List.mem_cons_of_mem _ hother)
    · simp [dropZeros, hzero]

theorem value_eq_zero_iff : value digits = 0 ↔ dropZeros digits = [] := by
  constructor
  · intro hzero
    rw [← value_dropZeros] at hzero
    exact (leading_dropZeros h).value_injective ⟨by simp, by simp⟩ (by rw [hzero, value_nil])
  · intro hnil
    rw [← value_dropZeros, hnil, value_nil]

end

end Value

section Trailing

variable (digits : Text)

theorem reverse_dropWhile_append_reverse_takeWhile :
    (digits.reverse.dropWhile (· == 48)).reverse ++ (digits.reverse.takeWhile (· == 48)).reverse =
      digits := by
  rw [← List.reverse_append, List.takeWhile_append_dropWhile, List.reverse_reverse]

theorem take_trailingZeros : digits.take (digits.length - trailingZeros digits) =
      (digits.reverse.dropWhile (· == 48)).reverse := by
  have hsplit := reverse_dropWhile_append_reverse_takeWhile digits
  have hlength : digits.length - trailingZeros digits =
      (digits.reverse.dropWhile (· == 48)).reverse.length := by
    have := congrArg List.length hsplit
    simp only [List.length_append, List.length_reverse] at this
    simp only [trailingZeros, List.length_reverse]
    omega
  calc digits.take (digits.length - trailingZeros digits)
      = ((digits.reverse.dropWhile (· == 48)).reverse ++
          (digits.reverse.takeWhile (· == 48)).reverse).take
            (digits.reverse.dropWhile (· == 48)).reverse.length := by rw [hsplit, hlength]
    _ = (digits.reverse.dropWhile (· == 48)).reverse := List.take_left

/-- Digits end with the zeros that are taken off. -/
theorem take_append_trailingZeros : digits.take (digits.length - trailingZeros digits) ++
      List.replicate (trailingZeros digits) 48 = digits := by
  have hzeros : (digits.reverse.takeWhile (· == 48)).reverse =
      List.replicate (trailingZeros digits) 48 := by
    apply List.eq_replicate_iff.mpr
    constructor
    · simp [trailingZeros]
    · intro digit hdigit
      have := List.mem_takeWhile_imp (List.mem_reverse.mp hdigit)
      simpa using this
  rw [take_trailingZeros, ← hzeros, reverse_dropWhile_append_reverse_takeWhile]

theorem value_replicate_zero (count : ℕ) : value (List.replicate count 48) = 0 := by
  induction count with
  | zero => rfl
  | succ count ih => simp [List.replicate_succ, value_cons, ih]

theorem value_take_trailingZeros :
    value (digits.take (digits.length - trailingZeros digits)) * 10 ^ trailingZeros digits =
      value digits := by
  conv_rhs => rw [← take_append_trailingZeros digits]
  simp [value_append, value_replicate_zero]

theorem trailingZeros_le : trailingZeros digits ≤ digits.length := by
  have := (List.takeWhile_sublist (· == 48) (l := digits.reverse)).length_le
  simpa [trailingZeros] using this

/-- Once its trailing zeros are off, a text of digits is no multiple of ten. -/
theorem not_dvd_value_take {digits : Text} (h : ∀ digit ∈ digits, isDigit digit = true)
    (hvalue : value digits ≠ 0) :
    ¬ 10 ∣ value (digits.take (digits.length - trailingZeros digits)) := by
  rw [take_trailingZeros]
  cases hkept : digits.reverse.dropWhile (· == 48) with
  | nil =>
    have hnone := take_trailingZeros digits
    have hscaled := value_take_trailingZeros digits
    rw [hnone, hkept] at hscaled
    simp at hscaled
    exact absurd hscaled.symm hvalue
  | cons last kept =>
    have hmem : last ∈ digits := by
      have : last ∈ digits.reverse.dropWhile (· == 48) := by simp [hkept]
      exact List.mem_reverse.mp ((List.dropWhile_suffix _).subset this)
    have hlast : last ≠ 48 := by
      have := List.head?_dropWhile_not (· == 48) digits.reverse
      rw [hkept] at this
      simpa using this
    have hdigit := h last hmem
    simp only [isDigit, decide_eq_true_eq] at hdigit
    rw [List.reverse_cons, value_append]
    simp only [List.length_singleton, pow_one, value, List.foldl_cons, List.foldl_nil]
    omega

end Trailing

section Texts

variable (number : ℕ)

theorem isDigit_digitsOf : ∀ digit ∈ digitsOf number, isDigit digit = true := by
  intro digit hdigit
  unfold digitsOf at hdigit
  split at hdigit
  · simp only [List.mem_singleton] at hdigit
    simp [hdigit, isDigit]
  · simp only [List.mem_map, List.mem_reverse] at hdigit
    obtain ⟨small, hsmall, rfl⟩ := hdigit
    have := Nat.digits_lt_base (by decide : 1 < 10) hsmall
    simp only [isDigit, decide_eq_true_eq]
    omega

theorem value_map_reverse (digits : List ℕ) :
    value (digits.reverse.map (48 + ·)) = Nat.ofDigits 10 digits := by
  induction digits with
  | nil => rfl
  | cons digit digits ih =>
    rw [List.reverse_cons, List.map_append, value_append, ih, Nat.ofDigits_cons]
    simp [value, Nat.mul_comm, Nat.add_comm]

@[simp]
theorem value_digitsOf : value (digitsOf number) = number := by
  unfold digitsOf
  split
  · next h => simp [h, value]
  · rw [value_map_reverse, Nat.ofDigits_digits]

theorem digitsOf_injective {left right : ℕ} (h : digitsOf left = digitsOf right) :
    left = right := by
  rw [← value_digitsOf left, h, value_digitsOf]

theorem digitsOf_ne_nil : digitsOf number ≠ [] := by
  unfold digitsOf
  split
  · simp
  · next h => simpa [Nat.digits_eq_nil_iff_eq_zero] using h

theorem leading_digitsOf {number : ℕ} (h : number ≠ 0) : Leading (digitsOf number) := by
  refine ⟨isDigit_digitsOf number, ?_⟩
  have hne : Nat.digits 10 number ≠ [] := by simpa [Nat.digits_eq_nil_iff_eq_zero] using h
  have hlast := Nat.getLast_digit_ne_zero 10 h
  rw [digitsOf, if_neg h, List.head?_map, List.head?_reverse, List.getLast?_eq_some_getLast hne]
  simpa using hlast

theorem length_digitsOf_le {number bound : ℕ} (hbound : 0 < bound) (h : number < 10 ^ bound) :
    (digitsOf number).length ≤ bound := by
  unfold digitsOf
  split
  · exact hbound
  · rw [List.length_map, List.length_reverse]
    exact (Nat.digits_length_le_iff (by norm_num) number).mpr h

theorem integerText_injective {left right : ℤ} (h : integerText left = integerText right) :
    left = right := by
  have hminus : ∀ {number : ℕ} {rest : Text}, digitsOf number ≠ 45 :: rest := by
    intro number rest heq
    have := isDigit_digitsOf number 45 (by rw [heq]; exact List.mem_cons_self)
    simp [isDigit] at this
  unfold integerText at h
  split at h <;> split at h
  · have := digitsOf_injective (List.cons.inj h).2
    omega
  · exact absurd h.symm hminus
  · exact absurd h hminus
  · have := digitsOf_injective h
    omega

end Texts

section NormalForm

/-- Two multiples of powers of ten, neither divisible by ten any more, agree in both parts. -/
theorem scaled_injective {a b : ℕ} {e f : ℤ} (ha : ¬ 10 ∣ a) (hb : ¬ 10 ∣ b)
    (h : (a : ℚ) * 10 ^ e = b * 10 ^ f) : a = b ∧ e = f := by
  have hstep : ∀ {a b : ℕ} {e f : ℤ}, ¬ 10 ∣ a → (a : ℚ) * 10 ^ e = b * 10 ^ f → f ≤ e := by
    intro a b e f ha h
    by_contra hlt
    push Not at hlt
    obtain ⟨gap, hgap⟩ := Int.eq_ofNat_of_zero_le (Int.sub_nonneg.mpr (Int.add_one_le_of_lt hlt))
    have hf : f = e + (gap + 1 : ℕ) := by push_cast; omega
    apply ha
    have hcast : (a : ℚ) = (b * 10 ^ (gap + 1) : ℕ) := by
      rw [hf, zpow_add₀ (by norm_num), zpow_natCast] at h
      have hne : (10 : ℚ) ^ e ≠ 0 := zpow_ne_zero _ (by norm_num)
      push_cast
      apply mul_right_cancel₀ hne
      rw [h]
      ring
    have hnat : a = b * 10 ^ (gap + 1) := by exact_mod_cast hcast
    rw [hnat, pow_succ]
    exact ⟨b * 10 ^ gap, by ring⟩
  have hexponent : e = f := le_antisymm (hstep hb h.symm) (hstep ha h)
  subst hexponent
  have hne : (10 : ℚ) ^ e ≠ 0 := zpow_ne_zero _ (by norm_num)
  exact ⟨by exact_mod_cast mul_right_cancel₀ hne h, rfl⟩

/-- The rational number of a sign, a natural number and a power of ten. -/
def signed (negative : Bool) (digits : ℕ) (exponent : ℤ) : ℚ :=
  (if negative then -1 else 1) * (digits * 10 ^ exponent)

theorem signed_eq_zero_iff {negative : Bool} {digits : ℕ} {exponent : ℤ} :
    signed negative digits exponent = 0 ↔ digits = 0 := by
  have hne : (10 : ℚ) ^ exponent ≠ 0 := zpow_ne_zero _ (by norm_num)
  cases negative <;> simp [signed, hne]

theorem signed_scale (negative : Bool) (digits count : ℕ) (exponent : ℤ) :
    signed negative (digits * 10 ^ count) exponent = signed negative digits (exponent + count) := by
  unfold signed
  rw [zpow_add₀ (by norm_num), zpow_natCast]
  push_cast
  ring

/-- The normal form of a rational number is unique. -/
theorem signed_injective {s t : Bool} {a b : ℕ} {e f : ℤ} (ha : ¬ 10 ∣ a) (hb : ¬ 10 ∣ b)
    (h : signed s a e = signed t b f) : s = t ∧ a = b ∧ e = f := by
  have hpos : ∀ {a : ℕ} {e : ℤ}, ¬ 10 ∣ a → (0 : ℚ) < a * 10 ^ e := by
    intro a e ha
    have : 0 < a := Nat.pos_of_ne_zero fun hzero ↦ ha (hzero ▸ dvd_zero _)
    positivity
  have hleft := hpos (e := e) ha
  have hright := hpos (e := f) hb
  cases s <;> cases t <;> simp only [signed, Bool.false_eq_true, if_false, if_true, one_mul,
    neg_one_mul, neg_inj] at h
  · exact ⟨rfl, scaled_injective ha hb h⟩
  · linarith
  · linarith
  · exact ⟨rfl, scaled_injective ha hb h⟩

end NormalForm

end Bdp.Decimal
