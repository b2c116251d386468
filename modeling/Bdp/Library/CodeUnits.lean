import Mathlib

/-!
# Texts of UTF-16 code units

Strings of an ECMAScript program as lists of code units: surrogates, the escapes of a JSON string,
and the order in which an object enumerates its names. The grammar of the characters of a JSON
string is the relation `StringChars` between a source text and the text it denotes; the escaping
writer stays inside it and the unescaping reader decides it.
-/

namespace Bdp

/-- A string: the list of its UTF-16 code units. -/
abbrev Text := List ℕ

instance text_lawful : LawfulBEq Text := List.instLawfulBEq

/-- The code units of a text of ASCII letters. -/
def ascii (letters : List Char) : Text := letters.map Char.toNat

namespace CodeUnits

def quotationMark : ℕ := 34
def backslash : ℕ := 92

section Surrogates

def isHigh (unit : ℕ) : Bool := decide (0xd800 ≤ unit ∧ unit ≤ 0xdbff)

def isLow (unit : ℕ) : Bool := decide (0xdc00 ≤ unit ∧ unit ≤ 0xdfff)

/-- Some surrogate of the text does not have its other half beside it. -/
def HasLoneSurrogate (text : Text) : Prop :=
  ∃ before unit after, text = before ++ unit :: after ∧
    (isHigh unit = true ∧ (∀ next ∈ after.head?, isLow next = false) ∨
      isLow unit = true ∧ ∀ last ∈ before.getLast?, isHigh last = false)

theorem isLow_eq_false_of_isHigh {unit : ℕ} (h : isHigh unit = true) : isLow unit = false := by
  simp only [isHigh, isLow, decide_eq_true_eq, decide_eq_false_iff_not] at *
  omega

theorem not_hasLoneSurrogate_nil : ¬ HasLoneSurrogate [] := by
  rintro ⟨before, unit, after, h, _⟩
  simp at h

theorem not_hasLoneSurrogate_of_lt {text : Text} (h : ∀ unit ∈ text, unit < 0xd800) :
    ¬ HasLoneSurrogate text := by
  rintro ⟨before, unit, after, rfl, hlone⟩
  have hunit := h unit (by simp)
  simp only [isHigh, isLow, decide_eq_true_eq] at hlone
  omega

/-- A unit that is no surrogate leaves the question to the rest of the text. -/
theorem hasLoneSurrogate_cons {unit : ℕ} {rest : Text} (hhigh : isHigh unit = false)
    (hlow : isLow unit = false) : HasLoneSurrogate (unit :: rest) ↔ HasLoneSurrogate rest := by
  constructor
  · rintro ⟨before, lone, after, h, hlone⟩
    cases before with
    | nil =>
      obtain ⟨rfl, rfl⟩ := List.cons.inj h
      simp [hhigh, hlow] at hlone
    | cons first before =>
      obtain ⟨rfl, rfl⟩ := List.cons.inj h
      refine ⟨before, lone, after, rfl, hlone.imp_right fun hlone ↦ ⟨hlone.1, ?_⟩⟩
      intro last hlast
      exact hlone.2 last (by rw [List.getLast?_cons, hlast]; rfl)
  · rintro ⟨before, lone, after, rfl, hlone⟩
    refine ⟨unit :: before, lone, after, rfl, hlone.imp_right fun hlone ↦ ⟨hlone.1, ?_⟩⟩
    intro last hlast
    rw [List.getLast?_cons] at hlast
    cases hbefore : before.getLast? with
    | none => simp_all
    | some other => exact hlone.2 last (by simp_all)

/-- A surrogate pair leaves the question to the rest of the text. -/
theorem hasLoneSurrogate_pair {high low : ℕ} {rest : Text} (hhigh : isHigh high = true)
    (hlow : isLow low = true) :
    HasLoneSurrogate (high :: low :: rest) ↔ HasLoneSurrogate rest := by
  have hhigh' : isLow high = false := isLow_eq_false_of_isHigh hhigh
  have hlow' : isHigh low = false := by
    cases h : isHigh low with
    | false => rfl
    | true => rw [isLow_eq_false_of_isHigh h] at hlow; cases hlow
  constructor
  · rintro ⟨before, lone, after, h, hlone⟩
    match before, h with
    | [], h =>
      obtain ⟨rfl, rfl⟩ := List.cons.inj h
      simp [hhigh', hlow] at hlone
    | [first], h =>
      obtain ⟨rfl, rfl, rfl⟩ : high = first ∧ low = lone ∧ rest = after := by simpa using h
      simp [hhigh, hlow'] at hlone
    | first :: second :: before, h =>
      obtain ⟨rfl, rfl, rfl⟩ : high = first ∧ low = second ∧ rest = before ++ lone :: after := by
        simpa using h
      refine ⟨before, lone, after, rfl, hlone.imp_right fun hlone ↦ ⟨hlone.1, ?_⟩⟩
      intro last hlast
      exact hlone.2 last (by simp [List.getLast?_cons, Option.mem_def.mp hlast])
  · rintro ⟨before, lone, after, rfl, hlone⟩
    refine ⟨high :: low :: before, lone, after, rfl, hlone.imp_right fun hlone ↦ ⟨hlone.1, ?_⟩⟩
    intro last hlast
    cases hbefore : before.getLast? with
    | none => simp_all [List.getLast?_cons]
    | some other => exact hlone.2 last (by simp_all [List.getLast?_cons])

end Surrogates

section Escapes

/-- The letter of the short escape of a unit. -/
def shortEscape (unit : ℕ) : Option ℕ :=
  if unit = 8 then some 98
  else if unit = 9 then some 116
  else if unit = 10 then some 110
  else if unit = 12 then some 102
  else if unit = 13 then some 114
  else if unit = 34 then some 34
  else if unit = 92 then some 92
  else none

/-- The unit that the letter of a short escape stands for. -/
def escapedUnit (letter : ℕ) : Option ℕ :=
  if letter = 34 then some 34
  else if letter = 92 then some 92
  else if letter = 47 then some 47
  else if letter = 98 then some 8
  else if letter = 102 then some 12
  else if letter = 110 then some 10
  else if letter = 114 then some 13
  else if letter = 116 then some 9
  else none

def hexDigit (value : ℕ) : ℕ := if value < 10 then 48 + value else 87 + value

def hexValue (digit : ℕ) : Option ℕ :=
  if 48 ≤ digit ∧ digit ≤ 57 then some (digit - 48)
  else if 65 ≤ digit ∧ digit ≤ 70 then some (digit - 55)
  else if 97 ≤ digit ∧ digit ≤ 102 then some (digit - 87)
  else none

/-- The unit that four hexadecimal digits spell. -/
def hexUnit (a b c d : ℕ) : Option ℕ := do
  let a ← hexValue a
  let b ← hexValue b
  let c ← hexValue c
  let d ← hexValue d
  return 4096 * a + 256 * b + 16 * c + d

def unicodeEscape (unit : ℕ) : Text :=
  [92, 117, hexDigit (unit / 4096 % 16), hexDigit (unit / 256 % 16), hexDigit (unit / 16 % 16),
    hexDigit (unit % 16)]

/-- A unit that is no lone surrogate, as `JSON.stringify` writes it. -/
def escapeUnit (unit : ℕ) : Text :=
  match shortEscape unit with
  | some letter => [92, letter]
  | none => if unit < 32 then unicodeEscape unit else [unit]

/-- The characters of a string as `JSON.stringify` writes them: pairs of surrogates stay, a lone
one is escaped. -/
def escapeText : Text → Text
  | [] => []
  | unit :: rest =>
    if isHigh unit then
      match rest with
      | [] => unicodeEscape unit
      | next :: rest' =>
        if isLow next then unit :: next :: escapeText rest'
        else unicodeEscape unit ++ escapeText (next :: rest')
    else if isLow unit then unicodeEscape unit ++ escapeText rest
    else escapeUnit unit ++ escapeText rest

/-- `JSON.stringify` of a string. -/
def quote (text : Text) : Text := 34 :: (escapeText text ++ [34])

/-- The source characters of a JSON string and the text they denote. -/
inductive StringChars : Text → Text → Prop
  | nil : StringChars [] []
  | unescaped {unit : ℕ} {source denoted : Text} (control : 32 ≤ unit)
      (quotation : unit ≠ 34) (escape : unit ≠ 92) (rest : StringChars source denoted) :
      StringChars (unit :: source) (unit :: denoted)
  | escaped {letter unit : ℕ} {source denoted : Text}
      (spelled : escapedUnit letter = some unit) (rest : StringChars source denoted) :
      StringChars (92 :: letter :: source) (unit :: denoted)
  | unicode {a b c d unit : ℕ} {source denoted : Text}
      (spelled : hexUnit a b c d = some unit) (rest : StringChars source denoted) :
      StringChars (92 :: 117 :: a :: b :: c :: d :: source) (unit :: denoted)

/-- The characters between the quotes of a JSON string, as `JSON.parse` reads them. -/
def unescape : Text → Option Text
  | [] => some []
  | unit :: rest =>
    if unit = 92 then
      match rest with
      | [] => none
      | letter :: tail =>
        if letter = 117 then
          match tail with
          | a :: b :: c :: d :: rest' =>
            (hexUnit a b c d).bind fun spelled ↦ (unescape rest').map (spelled :: ·)
          | _ => none
        else (escapedUnit letter).bind fun spelled ↦ (unescape tail).map (spelled :: ·)
    else if unit < 32 ∨ unit = 34 then none
    else (unescape rest).map (unit :: ·)

theorem hexValue_hexDigit {value : ℕ} (h : value < 16) :
    hexValue (hexDigit value) = some value := by
  have hall : ∀ value < 16, hexValue (hexDigit value) = some value := by decide
  exact hall value h

variable {unit : ℕ}

theorem hexUnit_unicodeEscape (h : unit < 65536) :
    hexUnit (hexDigit (unit / 4096 % 16)) (hexDigit (unit / 256 % 16))
      (hexDigit (unit / 16 % 16)) (hexDigit (unit % 16)) = some unit := by
  simp only [hexUnit, hexValue_hexDigit (Nat.mod_lt _ (by decide : 16 > 0)), Option.bind_eq_bind,
    Option.bind_some, Option.pure_def, Option.some.injEq]
  omega

theorem escapedUnit_shortEscape {letter : ℕ} (h : shortEscape unit = some letter) :
    escapedUnit letter = some unit := by
  unfold shortEscape at h
  repeat' split at h
  all_goals first
    | (obtain rfl := Option.some.inj h; subst_vars; rfl)
    | cases h

theorem shortEscape_eq_none (h : shortEscape unit = none) : unit ≠ 34 ∧ unit ≠ 92 := by
  unfold shortEscape at h
  constructor
  · rintro rfl
    simp at h
  · rintro rfl
    simp at h

theorem escapedUnit_unicode : escapedUnit 117 = none := rfl

variable {denoted source : Text}

theorem stringChars_unicodeEscape (h : unit < 65536) (rest : StringChars source denoted) :
    StringChars (unicodeEscape unit ++ source) (unit :: denoted) :=
  .unicode (hexUnit_unicodeEscape h) rest

theorem stringChars_escapeUnit (unit : ℕ) (rest : StringChars source denoted) :
    StringChars (escapeUnit unit ++ source) (unit :: denoted) := by
  unfold escapeUnit
  cases h : shortEscape unit with
  | some letter => exact .escaped (escapedUnit_shortEscape h) rest
  | none =>
    have hplain := shortEscape_eq_none h
    by_cases hcontrol : unit < 32
    · simp only [hcontrol, if_true]
      exact stringChars_unicodeEscape (by omega) rest
    · simp only [hcontrol, if_false]
      exact .unescaped (by omega) hplain.1 hplain.2 rest

/-- Every text is written as characters that denote it. -/
theorem stringChars_escapeText (text : Text) : StringChars (escapeText text) text := by
  fun_induction escapeText text with
  | case1 => exact .nil
  | case2 unit hhigh =>
    have hunit : unit < 65536 := by
      simp only [isHigh, decide_eq_true_eq] at hhigh
      omega
    simpa using stringChars_unicodeEscape hunit .nil
  | case3 unit hhigh next rest hlow ih =>
    simp only [isHigh, isLow, decide_eq_true_eq] at hhigh hlow
    exact .unescaped (by omega) (by omega) (by omega)
      (.unescaped (by omega) (by omega) (by omega) ih)
  | case4 unit hhigh next rest hlow ih =>
    simp only [isHigh, decide_eq_true_eq] at hhigh
    exact stringChars_unicodeEscape (by omega) ih
  | case5 unit rest hhigh hlow ih =>
    simp only [isLow, decide_eq_true_eq] at hlow
    exact stringChars_unicodeEscape (by omega) ih
  | case6 unit rest hhigh hlow ih => exact stringChars_escapeUnit unit ih

theorem StringChars.unescape_eq (h : StringChars source denoted) :
    unescape source = some denoted := by
  induction h with
  | nil => rfl
  | unescaped control quotation escape _ ih =>
    rw [unescape.eq_def]
    simp [escape, Nat.not_lt.mpr control, quotation, ih]
  | @escaped letter _ _ _ spelled _ ih =>
    have hletter : letter ≠ 117 := by
      rintro rfl
      simp [escapedUnit_unicode] at spelled
    rw [unescape.eq_def]
    simp [hletter, spelled, ih]
  | unicode spelled _ ih =>
    rw [unescape.eq_def]
    simp [spelled, ih]

/-- Unescaping decides the grammar of string characters. -/
theorem unescape_eq_some_iff : unescape source = some denoted ↔ StringChars source denoted := by
  refine ⟨?_, StringChars.unescape_eq⟩
  intro h
  fun_induction unescape source generalizing denoted with
  | case1 => cases h; exact .nil
  | case2 => cases h
  | case3 a b c d rest ih =>
    obtain ⟨spelled, hspelled, h⟩ := Option.bind_eq_some_iff.mp h
    obtain ⟨tail, htail, rfl⟩ := Option.map_eq_some_iff.mp h
    exact .unicode hspelled (ih htail)
  | case4 => cases h
  | case5 letter rest hletter ih =>
    obtain ⟨spelled, hspelled, h⟩ := Option.bind_eq_some_iff.mp h
    obtain ⟨tail, htail, rfl⟩ := Option.map_eq_some_iff.mp h
    exact .escaped hspelled (ih htail)
  | case6 => cases h
  | case7 unit rest hescape hplain ih =>
    obtain ⟨tail, htail, rfl⟩ := Option.map_eq_some_iff.mp h
    push Not at hplain
    exact .unescaped hplain.1 hplain.2 hescape (ih htail)

end Escapes

section Names

/-- An array index: a decimal without leading zeros below `2 ^ 32 - 1`. -/
def arrayIndex (name : Text) : Option ℕ :=
  let value := name.foldl (fun value digit ↦ 10 * value + (digit - 48)) 0
  if name ≠ [] ∧ (∀ digit ∈ name, 48 ≤ digit ∧ digit ≤ 57) ∧ (name.head? = some 48 → name = [48])
    ∧ value < 2 ^ 32 - 1
  then some value else none

variable {α β : Type}

def isIndex (member : Text × α) : Bool := (arrayIndex member.1).isSome

/-- The smaller array index comes first. -/
def IndexBefore (left right : Text × α) : Prop :=
  (arrayIndex left.1).getD 0 ≤ (arrayIndex right.1).getD 0

instance : DecidableRel (IndexBefore (α := α)) :=
  fun left right ↦
    inferInstanceAs (Decidable ((arrayIndex left.1).getD 0 ≤ (arrayIndex right.1).getD 0))

instance : IsTrans (Text × α) IndexBefore := ⟨fun _ _ _ h h' ↦ Nat.le_trans h h'⟩

instance : Std.Total (IndexBefore (α := α)) := ⟨fun _ _ ↦ Nat.le_total _ _⟩

/-- Members in the order in which an ECMAScript object enumerates them: array indices ascending,
then the other names in order of insertion. -/
def enumeration (members : List (Text × α)) : List (Text × α) :=
  (members.filter isIndex).insertionSort IndexBefore ++ members.filter fun member ↦ !isIndex member

theorem enumeration_perm (members : List (Text × α)) : (enumeration members).Perm members :=
  ((List.perm_insertionSort _ _).append_right _).trans (List.filter_append_perm isIndex members)

theorem enumeration_idem (members : List (Text × α)) :
    enumeration (enumeration members) = enumeration members := by
  have hindices : ((members.filter isIndex).insertionSort IndexBefore).filter isIndex =
      (members.filter isIndex).insertionSort IndexBefore := by
    apply List.filter_eq_self.mpr
    intro member hmember
    have := (List.perm_insertionSort _ _).mem_iff.mp hmember
    exact (List.mem_filter.mp this).2
  have hothers : ((members.filter isIndex).insertionSort IndexBefore).filter
      (fun member ↦ !isIndex member) = [] := by
    apply List.filter_eq_nil_iff.mpr
    intro member hmember
    have := (List.perm_insertionSort _ _).mem_iff.mp hmember
    simp [(List.mem_filter.mp this).2]
  have hsorted := List.pairwise_insertionSort IndexBefore (members.filter isIndex)
  simp only [enumeration, List.filter_append, hindices, hothers, List.filter_filter]
  simp [hsorted.insertionSort_eq]

/-- Members without array indices stay in order of insertion. -/
theorem enumeration_eq_self {members : List (Text × α)}
    (h : ∀ member ∈ members, arrayIndex member.1 = none) : enumeration members = members := by
  have hindex : ∀ member ∈ members, isIndex member = false := by
    intro member hmember
    rw [isIndex, h member hmember]
    rfl
  have hnone : members.filter isIndex = [] := by
    apply List.filter_eq_nil_iff.mpr
    intro member hmember
    simp [hindex member hmember]
  have hall : members.filter (fun member ↦ !isIndex member) = members := by
    apply List.filter_eq_self.mpr
    intro member hmember
    simp [hindex member hmember]
  rw [enumeration, hnone, hall]
  rfl

theorem isIndex_map (change : α → β) :
    (isIndex ∘ Prod.map id change : Text × α → Bool) = isIndex := rfl

theorem enumeration_map (change : α → β) (members : List (Text × α)) :
    enumeration (members.map (Prod.map id change)) =
      (enumeration members).map (Prod.map id change) := by
  have hsort := List.map_insertionSort IndexBefore IndexBefore (Prod.map id change)
    (members.filter isIndex) fun _ _ _ _ ↦ Iff.rfl
  simp only [enumeration, List.map_append, List.filter_map, isIndex_map, hsort]
  rfl

end Names

end CodeUnits

end Bdp
