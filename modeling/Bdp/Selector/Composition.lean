import Bdp.Selector.GrammarLaw

/-!
# Composing a selector with an incidence

A relationship listing with operands puts the user's selector in parentheses, without parsing it,
and appends the condition that a Link has the operands as its endpoints. The meaning of that
condition is stated on the Links themselves.
-/

namespace Bdp.Selector

section Writing

def hexLetter (digit : ℕ) : Char :=
  if digit < 10 then Char.ofNat (48 + digit) else Char.ofNat (87 + digit)

/-- A letter of a string as `JSON.stringify` writes it. -/
def stringifyLetter (letter : Char) : List Char :=
  if letter = '"' then ['\\', '"']
  else if letter = '\\' then ['\\', '\\']
  else if letter = Char.ofNat 8 then ['\\', 'b']
  else if letter = Char.ofNat 12 then ['\\', 'f']
  else if letter = '\n' then ['\\', 'n']
  else if letter = '\r' then ['\\', 'r']
  else if letter = '\t' then ['\\', 't']
  else if letter.toNat < 32 then
    ['\\', 'u', '0', '0', hexLetter (letter.toNat / 16), hexLetter (letter.toNat % 16)]
  else [letter]

def stringify (value : String) : List Char :=
  '"' :: (value.toList.flatMap stringifyLetter ++ ['"'])

end Writing

section Incidence

inductive Direction where
  | out
  | inbound
  | both
  deriving DecidableEq

/-- The operands of a relationship listing, resolved to URIs, with the direction option. -/
structure Incidence where
  a : String
  b : Option String
  direction : Option Direction
  deriving DecidableEq

inductive Field where
  | source
  | target
  deriving DecidableEq

def Field.name : Field → String
  | .source => "source"
  | .target => "target"

/-- `(@.field == "uri" || @.field.uri == "uri")` -/
def identity (field : Field) (uri : String) : List Char :=
  "(@.".toList ++ field.name.toList ++ " == ".toList ++ stringify uri ++ " || @.".toList ++
    field.name.toList ++ ".uri == ".toList ++ stringify uri ++ ")".toList

def orientation (a : String) : Option String → List Char
  | none => identity .source a
  | some b => "(".toList ++ identity .source a ++ " && ".toList ++ identity .target b ++ ")".toList

def Incidence.outText (incidence : Incidence) : List Char := orientation incidence.a incidence.b

def Incidence.inboundText (incidence : Incidence) : List Char :=
  match incidence.b with
  | none => identity .target incidence.a
  | some b => orientation b (some incidence.a)

def Incidence.resolvedDirection (incidence : Incidence) : Direction :=
  incidence.direction.getD (if incidence.b = none then .both else .out)

def Incidence.text (incidence : Incidence) : List Char :=
  match incidence.resolvedDirection with
  | .out => incidence.outText
  | .inbound => incidence.inboundText
  | .both => "(".toList ++ incidence.outText ++ " || ".toList ++ incidence.inboundText ++ ")".toList

/-- `raw.slice(3, -1)` -/
def sliceInner (raw : List Char) : List Char := (raw.drop 3).dropLast

/-- The selector that the listing sends: none where the supplied one cannot be composed. -/
def composeSelector (raw : Option (List Char)) (incidence : Incidence) : Option (List Char) :=
  match raw with
  | none => some ("$[?".toList ++ incidence.text ++ "]".toList)
  | some raw =>
    if ¬ "$[?".toList <+: raw ∨ ¬ "]".toList <:+ raw then none
    else some ("$[?(".toList ++ sliceInner raw ++ ") && ".toList ++ incidence.text ++ "]".toList)

end Incidence

section Meaning

/-- The URI that an endpoint names, as a string or by its `uri` member. -/
def endpointUri : JsonValue ℚ → Option String
  | .string uri => some uri
  | value => (value.member "uri").bind JsonValue.asString

def Field.touches (field : Field) (uri : String) (link : JsonValue ℚ) : Bool :=
  decide ((link.member field.name).bind endpointUri = some uri)

def Incidence.leaves (incidence : Incidence) (link : JsonValue ℚ) : Bool :=
  Field.source.touches incidence.a link && incidence.b.all (Field.target.touches · link)

def Incidence.enters (incidence : Incidence) (link : JsonValue ℚ) : Bool :=
  Field.target.touches incidence.a link && incidence.b.all (Field.source.touches · link)

/-- The Link joins the operands in the direction asked for. -/
def Incidence.joins (incidence : Incidence) (link : JsonValue ℚ) : Bool :=
  match incidence.resolvedDirection with
  | .out => incidence.leaves link
  | .inbound => incidence.enters link
  | .both => incidence.leaves link || incidence.enters link

/-- The composed selector, where it is accepted, selects what an accepted selector of the user
selects among the Links that join the operands. -/
def Intersects (number : List Char → Option ℚ) (raw : List Char) (incidence : Incidence) : Prop :=
  ∀ composed node, composeSelector (some raw) incidence = some composed →
    parseSelector number composed = some node →
    ∃ user, parseSelector number raw = some user ∧
      ∀ links, select node links = (select user links).filter incidence.joins

/-- The text between the brackets is cut into tokens by itself, and none of them closes a
parenthesis that was not opened there. -/
def standsAlone (number : List Char → Option ℚ) (inner : List Char) : Bool :=
  (tokenize number (inner.length + 1) inner).any (closesOwn 0)

end Meaning

end Bdp.Selector
