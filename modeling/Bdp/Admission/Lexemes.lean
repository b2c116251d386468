import Bdp.Library.JsonGrammar
import Bdp.Library.Spans

/-!
# Lexemes of a JSON document

The scanners of lossless admission for single tokens: the pattern of a JSON number, anchored at a
position or at both ends, the test for scalar Unicode and the scan of a string to its closing
quote. Each one is shown to take exactly what the grammar derives.
-/

namespace Bdp.Admission

open CodeUnits JsonGrammar
open Spans (span_append)
open Bdp.Decimal (isDigit)

section Numbers

/-- `0|[1-9][0-9]*` at the start of a text, with what follows. -/
def readInteger : Text → Option (Text × Text)
  | [] => none
  | unit :: rest =>
    if unit = 48 then some ([48], rest)
    else if 49 ≤ unit ∧ unit ≤ 57 then
      some (unit :: rest.takeWhile Decimal.isDigit, rest.dropWhile Decimal.isDigit)
    else none

/-- `(?:\.[0-9]+)?` -/
def readFraction : Text → Text × Text
  | [] => ([], [])
  | unit :: rest =>
    if unit = 46 ∧ rest.takeWhile Decimal.isDigit ≠ [] then
      (rest.takeWhile Decimal.isDigit, rest.dropWhile Decimal.isDigit)
    else ([], unit :: rest)

/-- `[+-]?` -/
def readSign : Text → Option ℕ × Text
  | [] => (none, [])
  | unit :: rest => if unit = 43 ∨ unit = 45 then (some unit, rest) else (none, unit :: rest)

/-- `(?:[eE][+-]?[0-9]+)?` -/
def readExponent : Text → Option ExponentPart × Text
  | [] => (none, [])
  | unit :: rest =>
    if (unit = 101 ∨ unit = 69) ∧ (readSign rest).2.takeWhile Decimal.isDigit ≠ [] then
      (some ⟨unit, (readSign rest).1, (readSign rest).2.takeWhile Decimal.isDigit⟩,
        (readSign rest).2.dropWhile Decimal.isDigit)
    else (none, unit :: rest)

/-- `-?` -/
def readMinus : Text → Bool × Text
  | [] => (false, [])
  | unit :: rest => if unit = 45 then (true, rest) else (false, unit :: rest)

/-- `NUMBER_PREFIX` at the start of a text: the parts of the match and what follows it. -/
def readNumber (text : Text) : Option (NumberParts × Text) :=
  (readInteger (readMinus text).2).map fun integer ↦
    let fraction := readFraction integer.2
    let exponent := readExponent fraction.2
    (⟨(readMinus text).1, integer.1, fraction.1, exponent.1⟩, exponent.2)

/-- `JSON_NUMBER.test`, with the parts of the match. -/
def numberParts (lexeme : Text) : Option NumberParts :=
  match readNumber lexeme with
  | some (parts, []) => some parts
  | _ => none

theorem digits_takeWhile (text : Text) : Digits (text.takeWhile isDigit) :=
  fun _ ↦ List.mem_takeWhile_imp

theorem readInteger_sound {text integer rest : Text} (h : readInteger text = some (integer, rest)) :
    IsInteger integer ∧ text = integer ++ rest := by
  cases text with
  | nil => cases h
  | cons unit tail =>
    simp only [readInteger] at h
    split at h
    · next hzero =>
      simp only [Option.some.injEq, Prod.mk.injEq] at h
      obtain ⟨rfl, rfl⟩ := h
      exact ⟨.inl rfl, by simp [hzero]⟩
    · split at h
      · next hdigit =>
        simp only [Option.some.injEq, Prod.mk.injEq] at h
        obtain ⟨rfl, rfl⟩ := h
        exact ⟨.inr ⟨unit, _, rfl, hdigit.1, hdigit.2, digits_takeWhile tail⟩, by simp⟩
      · cases h

theorem readInteger_complete {integer rest : Text} (h : IsInteger integer)
    (hrest : ∀ unit ∈ rest.head?, isDigit unit = false) :
    readInteger (integer ++ rest) = some (integer, rest) := by
  obtain rfl | ⟨first, digits, rfl, hlow, hhigh, hdigits⟩ := h
  · simp [readInteger]
  · have hzero : first ≠ 48 := by omega
    have hspan := span_append hdigits hrest
    simp [readInteger, hzero, hlow, hhigh, hspan.1, hspan.2]

theorem readFraction_sound (text : Text) : Digits (readFraction text).1 ∧
      text = fractionText (readFraction text).1 ++ (readFraction text).2 := by
  cases text with
  | nil => simp [readFraction, Digits, fractionText]
  | cons unit rest =>
    simp only [readFraction]
    split
    · next h =>
      obtain ⟨rfl, hne⟩ := h
      exact ⟨digits_takeWhile rest, by simp [fractionText, hne]⟩
    · simp [Digits, fractionText]

theorem readFraction_complete {fraction rest : Text} (h : Digits fraction)
    (hrest : ∀ unit ∈ rest.head?, isDigit unit = false ∧ unit ≠ 46) :
    readFraction (fractionText fraction ++ rest) = (fraction, rest) := by
  cases fraction with
  | nil =>
    cases rest with
    | nil => rfl
    | cons unit rest => simp [fractionText, readFraction, (hrest unit rfl).2]
  | cons digit digits =>
    have hspan := span_append h fun unit hunit ↦ (hrest unit hunit).1
    simp only [fractionText, List.cons_ne_nil, if_false, List.cons_append, readFraction]
    rw [List.cons_append] at hspan
    rw [hspan.1, hspan.2]
    simp

theorem readSign_complete {sign : Option ℕ} {rest : Text} (h : ∀ unit ∈ sign, unit = 43 ∨ unit = 45)
    (hrest : ∀ unit ∈ rest.head?, isDigit unit = true) :
    readSign (sign.toList ++ rest) = (sign, rest) := by
  cases sign with
  | some unit => simp [readSign, h unit rfl]
  | none =>
    cases rest with
    | nil => rfl
    | cons unit rest =>
      have hdigit := hrest unit rfl
      simp only [isDigit, decide_eq_true_eq] at hdigit
      have hsign : ¬ (unit = 43 ∨ unit = 45) := by omega
      simp [readSign, hsign]

theorem readSign_sound (text : Text) : (∀ unit ∈ (readSign text).1, unit = 43 ∨ unit = 45) ∧
      text = (readSign text).1.toList ++ (readSign text).2 := by
  cases text with
  | nil => simp [readSign]
  | cons unit rest =>
    simp only [readSign]
    split
    · next h => simpa using h
    · simp

theorem readExponent_sound (text : Text) : (∀ part ∈ (readExponent text).1, part.Valid) ∧
      text = exponentText (readExponent text).1 ++ (readExponent text).2 := by
  cases text with
  | nil => simp [readExponent, exponentText]
  | cons unit rest =>
    simp only [readExponent]
    split
    · next h =>
      have hsign := readSign_sound rest
      constructor
      · rintro part hpart
        obtain rfl := Option.some.inj hpart
        exact ⟨h.1, hsign.1, digits_takeWhile _, h.2⟩
      · simp only [exponentText, Option.map_some, Option.getD_some, ExponentPart.text,
          List.cons_append, List.append_assoc, List.takeWhile_append_dropWhile, ← hsign.2]
    · simp [exponentText]

theorem readExponent_complete {exponent : Option ExponentPart} {rest : Text}
    (h : ∀ part ∈ exponent, part.Valid) (hrest : Delimited rest) :
    readExponent (exponentText exponent ++ rest) = (exponent, rest) := by
  cases exponent with
  | none =>
    cases rest with
    | nil => rfl
    | cons unit rest =>
      have hunit := hrest unit rfl
      simp [exponentText, readExponent, hunit.2.2.1, hunit.2.2.2]
  | some part =>
    obtain ⟨letter, sign, digits⟩ := part
    have hvalid := h _ rfl
    have hspan := span_append hvalid.digits fun unit hunit ↦ (hrest unit hunit).1
    have hsign : readSign (sign.toList ++ (digits ++ rest)) = (sign, digits ++ rest) := by
      apply readSign_complete hvalid.sign
      intro unit hunit
      cases digits with
      | nil => exact absurd rfl hvalid.nonempty
      | cons digit digits =>
        obtain rfl : digit = unit := by simpa using hunit
        exact hvalid.digits digit List.mem_cons_self
    simp only [exponentText, Option.map_some, Option.getD_some, ExponentPart.text,
      List.cons_append, List.append_assoc, readExponent, hsign, hspan.1, hspan.2]
    simp [hvalid.letter, hvalid.nonempty]

variable {parts : NumberParts}

theorem readNumber_sound {text rest : Text}
    (h : readNumber text = some (parts, rest)) : parts.Valid ∧ text = parts.text ++ rest := by
  obtain ⟨integer, hinteger, hparts⟩ := Option.map_eq_some_iff.mp h
  simp only [Prod.mk.injEq] at hparts
  obtain ⟨rfl, rfl⟩ := hparts
  obtain ⟨hvalid, htail⟩ := @readInteger_sound _ integer.1 integer.2 hinteger
  have hfraction := readFraction_sound integer.2
  have hexponent := readExponent_sound (readFraction integer.2).2
  have hminus : text = minusText (readMinus text).1 ++ (readMinus text).2 := by
    cases text with
    | nil => rfl
    | cons unit rest =>
      simp only [readMinus]
      split
      · next h => simp [minusText, h]
      · simp [minusText]
  refine ⟨⟨hvalid, hfraction.1, hexponent.1⟩, ?_⟩
  calc text = minusText (readMinus text).1 ++ (readMinus text).2 := hminus
    _ = minusText (readMinus text).1 ++ (integer.1 ++ integer.2) := by rw [htail]
    _ = minusText (readMinus text).1 ++ (integer.1 ++
          (fractionText (readFraction integer.2).1 ++ (readFraction integer.2).2)) := by
        rw [← hfraction.2]
    _ = minusText (readMinus text).1 ++ (integer.1 ++ (fractionText (readFraction integer.2).1 ++
          (exponentText (readExponent (readFraction integer.2).2).1 ++
            (readExponent (readFraction integer.2).2).2))) := by rw [← hexponent.2]
    _ = _ := by simp [NumberParts.text]

theorem head_fraction_exponent {rest : Text} (h : parts.Valid) (hrest : Delimited rest) :
    (∀ unit ∈ (exponentText parts.exponent ++ rest).head?, isDigit unit = false ∧ unit ≠ 46) ∧
    ∀ unit ∈ (fractionText parts.fraction ++ (exponentText parts.exponent ++ rest)).head?,
      isDigit unit = false := by
  have hexponent : ∀ unit ∈ (exponentText parts.exponent ++ rest).head?,
      isDigit unit = false ∧ unit ≠ 46 := by
    intro unit hunit
    cases hpart : parts.exponent with
    | none =>
      rw [hpart] at hunit
      have := hrest unit hunit
      exact ⟨this.1, this.2.1⟩
    | some part =>
      rw [hpart] at hunit
      have hletter := (h.exponent part (by simp [hpart])).letter
      obtain rfl : part.letter = unit := by simpa [exponentText, ExponentPart.text] using hunit
      constructor
      · simp only [isDigit, decide_eq_false_iff_not]
        omega
      · omega
  refine ⟨hexponent, ?_⟩
  intro unit hunit
  cases hfraction : parts.fraction with
  | nil =>
    rw [hfraction] at hunit
    exact (hexponent unit hunit).1
  | cons digit digits =>
    rw [hfraction] at hunit
    obtain rfl : 46 = unit := by simpa [fractionText] using hunit
    rfl

theorem readNumber_complete {rest : Text} (h : parts.Valid)
    (hrest : Delimited rest) : readNumber (parts.text ++ rest) = some (parts, rest) := by
  obtain ⟨hexponent, hfraction⟩ := head_fraction_exponent h hrest
  have hminus : readMinus (parts.text ++ rest) = (parts.negative, parts.integer ++
        (fractionText parts.fraction ++ (exponentText parts.exponent ++ rest))) := by
    have hhead : ∀ unit ∈ parts.integer.head?, unit ≠ 45 := by
      intro unit hunit
      have := digits_integer h.integer unit (List.mem_of_mem_head? hunit)
      simp only [isDigit, decide_eq_true_eq] at this
      omega
    cases hnegative : parts.negative with
    | true => simp [NumberParts.text, minusText, hnegative, readMinus]
    | false =>
      cases hinteger : parts.integer with
      | nil => exact absurd hinteger (integer_ne_nil h.integer)
      | cons first digits =>
        have := hhead first (by simp [hinteger])
        simp [NumberParts.text, minusText, hnegative, hinteger, readMinus, this]
  unfold readNumber
  rw [hminus]
  simp only [readInteger_complete h.integer hfraction, Option.map_some,
    readFraction_complete h.fraction hexponent, readExponent_complete h.exponent hrest]

theorem delimited_nil : Delimited [] := by simp [Delimited]

theorem numberParts_sound {lexeme : Text}
    (h : numberParts lexeme = some parts) : parts.Valid ∧ lexeme = parts.text := by
  unfold numberParts at h
  split at h
  · next parts' hread =>
    obtain rfl := Option.some.inj h
    simpa using readNumber_sound hread
  · cases h

theorem numberParts_text (h : parts.Valid) : numberParts parts.text = some parts := by
  have := readNumber_complete h delimited_nil
  rw [List.append_nil] at this
  simp [numberParts, this]

end Numbers

section Strings

/-- `isUnicodeScalarString`: no surrogate without its other half. -/
def isUnicodeScalarString : Text → Bool
  | [] => true
  | unit :: rest =>
    if isHigh unit then
      match rest with
      | [] => false
      | next :: rest' => if isLow next then isUnicodeScalarString rest' else false
    else if isLow unit then false
    else isUnicodeScalarString rest

theorem isUnicodeScalarString_iff (text : Text) :
    isUnicodeScalarString text = true ↔ ¬ HasLoneSurrogate text := by
  fun_induction isUnicodeScalarString text with
  | case1 => simp [not_hasLoneSurrogate_nil]
  | case2 unit hhigh =>
    simp only [Bool.false_eq_true, false_iff, not_not]
    exact ⟨[], unit, [], rfl, .inl ⟨hhigh, by simp⟩⟩
  | case3 unit hhigh next rest hlow ih => rw [ih, hasLoneSurrogate_pair hhigh hlow]
  | case4 unit hhigh next rest hlow =>
    simp only [Bool.false_eq_true, false_iff, not_not]
    exact ⟨[], unit, next :: rest, rfl, .inl ⟨hhigh, by simpa using hlow⟩⟩
  | case5 unit rest hhigh hlow =>
    simp only [Bool.false_eq_true, false_iff, not_not]
    exact ⟨[], unit, rest, rfl, .inr ⟨hlow, by simp⟩⟩
  | case6 unit rest hhigh hlow ih =>
    rw [ih, hasLoneSurrogate_cons (by simpa using hhigh) (by simpa using hlow)]

/-- The units before the first quote that no backslash escapes, and what follows that quote. -/
def closingQuote : (escaped : Bool) → Text → Option (Text × Text)
  | _, [] => none
  | escaped, unit :: rest =>
    if unit = 34 ∧ escaped = false then some ([], rest)
    else (closingQuote (unit == 92 && !escaped) rest).map fun found ↦ (unit :: found.1, found.2)

theorem closingQuote_sound {escaped : Bool} {text body rest : Text}
    (h : closingQuote escaped text = some (body, rest)) : text = body ++ 34 :: rest := by
  induction text generalizing escaped body with
  | nil => cases h
  | cons unit tail ih =>
    unfold closingQuote at h
    split at h
    · next hquote =>
      simp only [Option.some.injEq, Prod.mk.injEq] at h
      obtain ⟨rfl, rfl⟩ := h
      simp [hquote.1]
    · obtain ⟨found, hfound, hbody⟩ := Option.map_eq_some_iff.mp h
      simp only [Prod.mk.injEq] at hbody
      obtain ⟨rfl, rfl⟩ := hbody
      simpa using ih hfound

theorem hexValue_ne {digit : ℕ} (h : (hexValue digit).isSome = true) : digit ≠ 34 ∧ digit ≠ 92 := by
  constructor
  · rintro rfl
    simp [hexValue] at h
  · rintro rfl
    simp [hexValue] at h

variable {unit : ℕ}

theorem hexUnit_isSome {a b c d : ℕ} (h : hexUnit a b c d = some unit) :
    (hexValue a).isSome = true ∧ (hexValue b).isSome = true ∧ (hexValue c).isSome = true ∧
      (hexValue d).isSome = true := by
  unfold hexUnit at h
  cases ha : hexValue a <;> cases hb : hexValue b <;> cases hc : hexValue c <;>
    cases hd : hexValue d <;> simp_all

theorem closingQuote_plain {text : Text} (hquote : unit ≠ 34) (hescape : unit ≠ 92) :
    closingQuote false (unit :: text) =
      (closingQuote false text).map fun found ↦ (unit :: found.1, found.2) := by
  have hunit : (unit == 92) = false := by simpa using hescape
  rw [closingQuote.eq_def]
  simp [hquote, hunit]

theorem closingQuote_escaped {text : Text} : closingQuote false (92 :: unit :: text) =
      (closingQuote false text).map fun found ↦ (92 :: unit :: found.1, found.2) := by
  rw [closingQuote.eq_def]
  simp only [Nat.reduceEqDiff, false_and, if_false]
  rw [closingQuote.eq_def]
  simp [Function.comp_def]

theorem closingQuote_complete {source denoted : Text} (h : StringChars source denoted)
    (rest : Text) : closingQuote false (source ++ 34 :: rest) = some (source, rest) := by
  induction h with
  | nil => simp [closingQuote]
  | unescaped _ quotation escape _ ih =>
    rw [List.cons_append, closingQuote_plain quotation escape, ih]
    rfl
  | escaped _ _ ih =>
    rw [List.cons_append, List.cons_append, closingQuote_escaped, ih]
    rfl
  | unicode spelled _ ih =>
    obtain ⟨ha, hb, hc, hd⟩ := hexUnit_isSome spelled
    simp only [List.cons_append]
    rw [closingQuote_escaped, closingQuote_plain (hexValue_ne ha).1 (hexValue_ne ha).2,
      closingQuote_plain (hexValue_ne hb).1 (hexValue_ne hb).2,
      closingQuote_plain (hexValue_ne hc).1 (hexValue_ne hc).2,
      closingQuote_plain (hexValue_ne hd).1 (hexValue_ne hd).2, ih]
    rfl

end Strings

end Bdp.Admission
