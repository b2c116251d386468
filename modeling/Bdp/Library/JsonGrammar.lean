import Bdp.Library.Decimal
import Bdp.Library.JsonTree

/-!
# The grammar of JSON texts

The productions of JSON over texts of code units, each with the tree it derives: whitespace,
structural characters with whitespace on both sides, literal names, numbers, strings, arrays and
objects with their members in text order. A number keeps the text that spells it.
-/

namespace Bdp

/-- A JSON value without parts. -/
inductive JsonLeaf where
  | null
  | bool (value : Bool)
  | string (value : Text)
  | number (lexeme : Text)
  deriving DecidableEq

namespace JsonGrammar

section Numbers

/-- The exponent of a number: its letter, its sign when there is one, its digits. -/
structure ExponentPart where
  letter : ℕ
  sign : Option ℕ
  digits : Text

/-- The parts of a number; an absent fraction has no digits. -/
structure NumberParts where
  negative : Bool
  integer : Text
  fraction : Text
  exponent : Option ExponentPart

def ExponentPart.text (part : ExponentPart) : Text :=
  part.letter :: (part.sign.toList ++ part.digits)

def fractionText (fraction : Text) : Text := if fraction = [] then [] else 46 :: fraction

def exponentText (exponent : Option ExponentPart) : Text := (exponent.map ExponentPart.text).getD []

def minusText (negative : Bool) : Text := if negative then [45] else []

def NumberParts.text (parts : NumberParts) : Text :=
  minusText parts.negative ++
    (parts.integer ++ (fractionText parts.fraction ++ exponentText parts.exponent))

def Digits (text : Text) : Prop := ∀ digit ∈ text, Decimal.isDigit digit = true

/-- `int = zero / ( digit1-9 *DIGIT )` -/
def IsInteger (text : Text) : Prop :=
  text = [48] ∨ ∃ first rest, text = first :: rest ∧ 49 ≤ first ∧ first ≤ 57 ∧ Digits rest

/-- `exp = e [ minus / plus ] 1*DIGIT` -/
structure ExponentPart.Valid (part : ExponentPart) : Prop where
  letter : part.letter = 101 ∨ part.letter = 69
  sign : ∀ sign ∈ part.sign, sign = 43 ∨ sign = 45
  digits : Digits part.digits
  nonempty : part.digits ≠ []

/-- `number = [ minus ] int [ frac ] [ exp ]` -/
structure NumberParts.Valid (parts : NumberParts) : Prop where
  integer : IsInteger parts.integer
  fraction : Digits parts.fraction
  exponent : ∀ part ∈ parts.exponent, part.Valid

def IsNumber (lexeme : Text) : Prop := ∃ parts : NumberParts, parts.Valid ∧ lexeme = parts.text

/-- What follows a number cannot continue it. -/
def Delimited (rest : Text) : Prop :=
  ∀ unit ∈ rest.head?, Decimal.isDigit unit = false ∧ unit ≠ 46 ∧ unit ≠ 101 ∧ unit ≠ 69

theorem digits_integer {text : Text} (h : IsInteger text) : Digits text := by
  obtain rfl | ⟨first, rest, rfl, hlow, hhigh, hrest⟩ := h
  · simp [Digits, Decimal.isDigit]
  · intro digit hdigit
    rcases List.mem_cons.mp hdigit with rfl | hdigit
    · simp only [Decimal.isDigit, decide_eq_true_eq]
      omega
    · exact hrest digit hdigit

theorem integer_ne_nil {text : Text} (h : IsInteger text) : text ≠ [] := by
  obtain rfl | ⟨first, rest, rfl, _⟩ := h <;> simp

end Numbers

section Productions

/-- `ws = *( %x20 / %x09 / %x0A / %x0D )` -/
def isWhitespace (unit : ℕ) : Bool := unit == 32 || unit == 9 || unit == 10 || unit == 13

def Whitespace (text : Text) : Prop := ∀ unit ∈ text, isWhitespace unit = true

/-- A structural character, with whitespace before and after. -/
def Structural (unit : ℕ) (text : Text) : Prop :=
  ∃ before after, Whitespace before ∧ Whitespace after ∧ text = before ++ unit :: after

/-- `string = quotation-mark *char quotation-mark`, with the text it denotes. -/
def IsString (denoted text : Text) : Prop :=
  ∃ source, CodeUnits.StringChars source denoted ∧ text = 34 :: (source ++ [34])

/-- What a production derives. -/
inductive Form where
  | value (tree : JsonTree JsonLeaf)
  | items (items : List (JsonTree JsonLeaf))
  | members (members : List (Text × JsonTree JsonLeaf))

/-- The productions for values, for the values of a nonempty array and for the members of a
nonempty object. -/
inductive Derives : Form → Text → Prop
  | null : Derives (.value (.leaf .null)) (ascii ['n', 'u', 'l', 'l'])
  | true : Derives (.value (.leaf (.bool Bool.true))) (ascii ['t', 'r', 'u', 'e'])
  | false : Derives (.value (.leaf (.bool Bool.false))) (ascii ['f', 'a', 'l', 's', 'e'])
  | number {lexeme : Text} (h : IsNumber lexeme) : Derives (.value (.leaf (.number lexeme))) lexeme
  | string {denoted text : Text} (h : IsString denoted text) :
      Derives (.value (.leaf (.string denoted))) text
  | emptyArray {opening closing : Text} (open_ : Structural 91 opening)
      (close : Structural 93 closing) : Derives (.value (.array [])) (opening ++ closing)
  | array {items : List (JsonTree JsonLeaf)} {opening text closing : Text}
      (open_ : Structural 91 opening) (values : Derives (.items items) text)
      (close : Structural 93 closing) :
      Derives (.value (.array items)) (opening ++ (text ++ closing))
  | emptyObject {opening closing : Text} (open_ : Structural 123 opening)
      (close : Structural 125 closing) : Derives (.value (.object [])) (opening ++ closing)
  | object {members : List (Text × JsonTree JsonLeaf)} {opening text closing : Text}
      (open_ : Structural 123 opening) (values : Derives (.members members) text)
      (close : Structural 125 closing) :
      Derives (.value (.object members)) (opening ++ (text ++ closing))
  | item {item : JsonTree JsonLeaf} {text : Text} (value : Derives (.value item) text) :
      Derives (.items [item]) text
  | moreItems {item : JsonTree JsonLeaf} {items : List (JsonTree JsonLeaf)}
      {text separator more : Text} (value : Derives (.value item) text)
      (comma : Structural 44 separator) (rest : Derives (.items items) more) :
      Derives (.items (item :: items)) (text ++ (separator ++ more))
  | member {name spelled : Text} {value : JsonTree JsonLeaf} {separator text : Text}
      (named : IsString name spelled) (colon : Structural 58 separator)
      (child : Derives (.value value) text) :
      Derives (.members [(name, value)]) (spelled ++ (separator ++ text))
  | moreMembers {name spelled : Text} {value : JsonTree JsonLeaf}
      {members : List (Text × JsonTree JsonLeaf)} {separator text comma more : Text}
      (named : IsString name spelled) (colon : Structural 58 separator)
      (child : Derives (.value value) text) (next : Structural 44 comma)
      (rest : Derives (.members members) more) :
      Derives (.members ((name, value) :: members))
        (spelled ++ (separator ++ (text ++ (comma ++ more))))

/-- `JSON-text = ws value ws` -/
def IsDocument (tree : JsonTree JsonLeaf) (text : Text) : Prop :=
  ∃ before body after, Whitespace before ∧ Whitespace after ∧ Derives (.value tree) body ∧
    text = before ++ (body ++ after)

theorem whitespace_nil : Whitespace [] := by simp [Whitespace]

theorem structural_bare (unit : ℕ) : Structural unit [unit] :=
  ⟨[], [], whitespace_nil, whitespace_nil, rfl⟩

end Productions

end JsonGrammar

end Bdp
