import Bdp.Library.CodeUnits

/-!
# Bytes of texts and their base64url form

The UTF-8 bytes and the UTF-16 bytes of a text of code units, and the letters that base64url writes
for bytes, without padding. Each encoding is undone by a decoder: UTF-8 on texts without lone
surrogates, UTF-16 on all texts of code units, base64url on all lists of bytes.
-/

namespace Bdp.CodeUnits

open List (cons_append forall_mem_cons)

variable {text : Text}

section Utf8

/-- The scalar value of a pair of surrogates. -/
def pairValue (high low : ℕ) : ℕ := 0x10000 + (high - 0xd800) * 0x400 + (low - 0xdc00)

/-- The bytes of a scalar value up to U+FFFF. -/
def unitUtf8 (unit : ℕ) : List ℕ :=
  if unit < 0x80 then [unit]
  else if unit < 0x800 then [0xc0 + unit / 0x40, 0x80 + unit % 0x40]
  else [0xe0 + unit / 0x1000, 0x80 + unit / 0x40 % 0x40, 0x80 + unit % 0x40]

/-- The bytes of a scalar value from U+10000. -/
def pairUtf8 (value : ℕ) : List ℕ :=
  [0xf0 + value / 0x40000, 0x80 + value / 0x1000 % 0x40, 0x80 + value / 0x40 % 0x40,
    0x80 + value % 0x40]

/-- The UTF-8 bytes of a text; a lone surrogate is replaced by U+FFFD. -/
def utf8Bytes : Text → List ℕ
  | [] => []
  | [unit] => unitUtf8 (if isHigh unit ∨ isLow unit then 0xfffd else unit)
  | unit :: next :: rest =>
    if isHigh unit ∧ isLow next then pairUtf8 (pairValue unit next) ++ utf8Bytes rest
    else unitUtf8 (if isHigh unit ∨ isLow unit then 0xfffd else unit) ++ utf8Bytes (next :: rest)

/-- The text of UTF-8 bytes. -/
def utf8Text : List ℕ → Text
  | [] => []
  | first :: rest =>
    if first < 0x80 then first :: utf8Text rest
    else if first < 0xe0 then
      match rest with
      | second :: rest => ((first - 0xc0) * 0x40 + (second - 0x80)) :: utf8Text rest
      | [] => []
    else if first < 0xf0 then
      match rest with
      | second :: third :: rest =>
        ((first - 0xe0) * 0x1000 + (second - 0x80) * 0x40 + (third - 0x80)) :: utf8Text rest
      | _ => []
    else
      match rest with
      | second :: third :: fourth :: rest =>
        let value := (first - 0xf0) * 0x40000 + (second - 0x80) * 0x1000 + (third - 0x80) * 0x40 +
          (fourth - 0x80)
        (0xd800 + (value - 0x10000) / 0x400) :: (0xdc00 + (value - 0x10000) % 0x400) ::
          utf8Text rest
      | _ => []

theorem utf8Text_unit {unit : ℕ} (h : unit < 0x10000) (rest : List ℕ) :
    utf8Text (unitUtf8 unit ++ rest) = unit :: utf8Text rest := by
  unfold unitUtf8
  split
  · next hsmall =>
    rw [List.singleton_append, utf8Text.eq_def]
    simp [hsmall]
  · split
    · next hsmall hmiddle =>
      have hvalue : (0xc0 + unit / 0x40 - 0xc0) * 0x40 + (0x80 + unit % 0x40 - 0x80) = unit := by
        omega
      rw [cons_append, List.singleton_append, utf8Text, if_neg (by omega), if_pos (by omega)]
      simp only [hvalue]
    · next hsmall hmiddle =>
      have hvalue : (0xe0 + unit / 0x1000 - 0xe0) * 0x1000 +
          (0x80 + unit / 0x40 % 0x40 - 0x80) * 0x40 + (0x80 + unit % 0x40 - 0x80) = unit := by
        omega
      rw [cons_append, cons_append, List.singleton_append, utf8Text,
        if_neg (by omega), if_neg (by omega), if_pos (by omega)]
      simp only [hvalue]

theorem utf8Text_pair {high low : ℕ} (hhigh : isHigh high = true) (hlow : isLow low = true)
    (rest : List ℕ) :
    utf8Text (pairUtf8 (pairValue high low) ++ rest) = high :: low :: utf8Text rest := by
  simp only [isHigh, isLow, decide_eq_true_eq] at hhigh hlow
  unfold pairUtf8
  generalize hpair : pairValue high low = value
  unfold pairValue at hpair
  have hvalue : (0xf0 + value / 0x40000 - 0xf0) * 0x40000 +
      (0x80 + value / 0x1000 % 0x40 - 0x80) * 0x1000 +
      (0x80 + value / 0x40 % 0x40 - 0x80) * 0x40 + (0x80 + value % 0x40 - 0x80) = value := by
    omega
  have hfirst : 0xd800 + (value - 0x10000) / 0x400 = high := by omega
  have hsecond : 0xdc00 + (value - 0x10000) % 0x400 = low := by omega
  simp only [cons_append, List.nil_append]
  rw [utf8Text, if_neg (by omega), if_neg (by omega), if_neg (by omega)]
  simp only [hvalue, hfirst, hsecond]

/-- The bytes of a text without lone surrogates determine it. -/
theorem utf8Text_utf8Bytes (hunits : ∀ unit ∈ text, unit < 0x10000)
    (h : ¬ HasLoneSurrogate text) : utf8Text (utf8Bytes text) = text := by
  fun_induction utf8Bytes text with
  | case1 => rfl
  | case2 unit =>
    have hlone : ¬ (isHigh unit = true ∨ isLow unit = true) := by
      rintro (hhigh | hlow)
      · exact h ⟨[], unit, [], rfl, .inl ⟨hhigh, by simp⟩⟩
      · exact h ⟨[], unit, [], rfl, .inr ⟨hlow, by simp⟩⟩
    rw [if_neg hlone, ← List.append_nil (unitUtf8 unit), utf8Text_unit (hunits unit (by simp))]
    rfl
  | case3 unit next rest hpair ih =>
    rw [utf8Text_pair hpair.1 hpair.2, ih (fun other hother ↦ hunits other (by simp [hother]))]
    rwa [← hasLoneSurrogate_pair hpair.1 hpair.2]
  | case4 unit next rest hpair ih =>
    have hlone : ¬ (isHigh unit = true ∨ isLow unit = true) := by
      rintro (hhigh | hlow)
      · exact h ⟨[], unit, next :: rest, rfl, .inl ⟨hhigh, by simpa [hhigh] using hpair⟩⟩
      · exact h ⟨[], unit, next :: rest, rfl, .inr ⟨hlow, by simp⟩⟩
    obtain ⟨hhigh, hlow⟩ := not_or.mp hlone
    rw [if_neg hlone, utf8Text_unit (hunits unit (by simp)),
      ih (fun other hother ↦ hunits other (List.mem_cons_of_mem _ hother))]
    rwa [← hasLoneSurrogate_cons (by simpa using hhigh) (by simpa using hlow)]

theorem unitUtf8_lt {unit : ℕ} (h : unit < 0x10000) : ∀ byte ∈ unitUtf8 unit, byte < 0x100 := by
  unfold unitUtf8
  split
  · simp
    omega
  · split <;> simp <;> omega

theorem pairUtf8_lt {value : ℕ} (h : value < 0x110000) : ∀ byte ∈ pairUtf8 value, byte < 0x100 := by
  have hfirst : 0xf0 + value / 0x40000 < 0x100 := by omega
  have hsecond : 0x80 + value / 0x1000 % 0x40 < 0x100 := by omega
  have hthird : 0x80 + value / 0x40 % 0x40 < 0x100 := by omega
  have hfourth : 0x80 + value % 0x40 < 0x100 := by omega
  exact forall_mem_cons.mpr ⟨hfirst, forall_mem_cons.mpr ⟨hsecond,
    forall_mem_cons.mpr ⟨hthird, List.forall_mem_singleton.mpr hfourth⟩⟩⟩

theorem utf8Bytes_lt (hunits : ∀ unit ∈ text, unit < 0x10000) :
    ∀ byte ∈ utf8Bytes text, byte < 0x100 := by
  have hreplaced {unit : ℕ} (h : unit < 0x10000) :
      (if isHigh unit ∨ isLow unit then 0xfffd else unit) < 0x10000 := by
    split
    · omega
    · exact h
  fun_induction utf8Bytes text with
  | case1 => simp
  | case2 unit => exact unitUtf8_lt (hreplaced (hunits unit (by simp)))
  | case3 unit next rest hpair ih =>
    refine List.forall_mem_append.mpr ⟨?_, ih fun other hother ↦ hunits other (by simp [hother])⟩
    have hvalue : pairValue unit next < 0x110000 := by
      simp only [isHigh, isLow, decide_eq_true_eq] at hpair
      unfold pairValue
      omega
    exact pairUtf8_lt hvalue
  | case4 unit next rest hpair ih =>
    exact List.forall_mem_append.mpr ⟨unitUtf8_lt (hreplaced (hunits unit (by simp))),
      ih fun other hother ↦ hunits other (List.mem_cons_of_mem _ hother)⟩

end Utf8

section Utf16

/-- The bytes of the code units, the larger one of each first. -/
def utf16Bytes : Text → List ℕ
  | [] => []
  | unit :: rest => unit / 0x100 :: unit % 0x100 :: utf16Bytes rest

def utf16Text : List ℕ → Text
  | high :: low :: rest => (high * 0x100 + low) :: utf16Text rest
  | _ => []

theorem utf16Text_utf16Bytes (text : Text) : utf16Text (utf16Bytes text) = text := by
  induction text with
  | nil => rfl
  | cons unit text ih =>
    have hunit : unit / 0x100 * 0x100 + unit % 0x100 = unit := by omega
    rw [utf16Bytes, utf16Text, ih, hunit]

theorem utf16Bytes_lt (hunits : ∀ unit ∈ text, unit < 0x10000) :
    ∀ byte ∈ utf16Bytes text, byte < 0x100 := by
  induction text with
  | nil => simp [utf16Bytes]
  | cons unit text ih =>
    obtain ⟨hunit, hrest⟩ := forall_mem_cons.mp hunits
    exact forall_mem_cons.mpr ⟨by omega, forall_mem_cons.mpr ⟨by omega, ih hrest⟩⟩

end Utf16

section Base64

/-- The letter of six bits. -/
def base64Letter (value : ℕ) : ℕ :=
  if value < 26 then 65 + value
  else if value < 52 then 71 + value
  else if value < 62 then value - 4
  else if value = 62 then 45
  else 95

def base64Value (letter : ℕ) : ℕ :=
  if letter = 45 then 62
  else if letter = 95 then 63
  else if letter < 65 then letter + 4
  else if letter < 97 then letter - 65
  else letter - 71

theorem base64Value_base64Letter {value : ℕ} (h : value < 64) :
    base64Value (base64Letter value) = value := by
  unfold base64Letter
  split_ifs <;> unfold base64Value <;> split_ifs <;> omega

/-- The letters of bytes, without padding. -/
def base64Url : List ℕ → Text
  | a :: b :: c :: rest =>
    base64Letter (a / 4) :: base64Letter (a % 4 * 16 + b / 16) ::
      base64Letter (b % 16 * 4 + c / 64) :: base64Letter (c % 64) :: base64Url rest
  | [a, b] => [base64Letter (a / 4), base64Letter (a % 4 * 16 + b / 16), base64Letter (b % 16 * 4)]
  | [a] => [base64Letter (a / 4), base64Letter (a % 4 * 16)]
  | [] => []

/-- The bytes of letters. -/
def base64Bytes : Text → List ℕ
  | p :: q :: r :: s :: rest =>
    (base64Value p * 4 + base64Value q / 16) :: (base64Value q % 16 * 16 + base64Value r / 4) ::
      (base64Value r % 4 * 64 + base64Value s) :: base64Bytes rest
  | [p, q, r] =>
    [base64Value p * 4 + base64Value q / 16, base64Value q % 16 * 16 + base64Value r / 4]
  | [p, q] => [base64Value p * 4 + base64Value q / 16]
  | _ => []

/-- Bytes are determined by their letters. -/
theorem base64Bytes_base64Url {bytes : List ℕ} (h : ∀ byte ∈ bytes, byte < 0x100) :
    base64Bytes (base64Url bytes) = bytes := by
  fun_induction base64Url bytes with
  | case1 a b c rest ih =>
    obtain ⟨ha, hb, hc, hrest⟩ :
        a < 0x100 ∧ b < 0x100 ∧ c < 0x100 ∧ ∀ byte ∈ rest, byte < 0x100 := by
      simpa using h
    rw [base64Bytes, ih hrest, base64Value_base64Letter (by omega),
      base64Value_base64Letter (by omega), base64Value_base64Letter (by omega),
      base64Value_base64Letter (by omega)]
    congr 1
    · omega
    · congr 1
      · omega
      · congr 1
        omega
  | case2 a b =>
    obtain ⟨ha, hb⟩ : a < 0x100 ∧ b < 0x100 := by simpa using h
    rw [base64Bytes, base64Value_base64Letter (by omega), base64Value_base64Letter (by omega),
      base64Value_base64Letter (by omega)]
    congr 1
    · omega
    · congr 1
      omega
  | case3 a =>
    have ha : a < 0x100 := by simpa using h
    rw [base64Bytes, base64Value_base64Letter (by omega), base64Value_base64Letter (by omega)]
    congr 1
    omega
  | case4 => rfl

/-- A letter of base64url: alphanumeric, a hyphen or an underscore. -/
def IsBase64Letter (letter : ℕ) : Prop :=
  65 ≤ letter ∧ letter ≤ 90 ∨ 97 ≤ letter ∧ letter ≤ 122 ∨ 48 ≤ letter ∧ letter ≤ 57 ∨
    letter = 45 ∨ letter = 95

theorem isBase64Letter_base64Letter (value : ℕ) : IsBase64Letter (base64Letter value) := by
  unfold base64Letter IsBase64Letter
  split_ifs <;> omega

theorem isBase64Letter_base64Url (bytes : List ℕ) :
    ∀ letter ∈ base64Url bytes, IsBase64Letter letter := by
  fun_induction base64Url bytes with
  | case1 a b c rest ih =>
    simp only [forall_mem_cons]
    exact ⟨isBase64Letter_base64Letter _, isBase64Letter_base64Letter _,
      isBase64Letter_base64Letter _, isBase64Letter_base64Letter _, ih⟩
  | case2 a b =>
    simp only [forall_mem_cons]
    exact ⟨isBase64Letter_base64Letter _, isBase64Letter_base64Letter _,
      isBase64Letter_base64Letter _, nofun⟩
  | case3 a =>
    simp only [forall_mem_cons]
    exact ⟨isBase64Letter_base64Letter _, isBase64Letter_base64Letter _, nofun⟩
  | case4 => exact nofun

end Base64

end Bdp.CodeUnits
