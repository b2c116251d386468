import Bdp.Library.Base64Url

/-!
# Entity tags and conditional reads

The entity tag of a revision, the loop that compares a list of tags with the current one, and the
status that a conditional read comes to; and next to them the grammar of the list and the evaluation
of the two fields.
-/

namespace Bdp.ReadHttp

open CodeUnits

section Revisions

def isWellFormedUnicode : Text → Bool
  | [] => true
  | code :: rest =>
    if isHigh code then
      match rest with
      | [] => false
      | following :: rest => if isLow following then isWellFormedUnicode rest else false
    else if isLow code then false
    else isWellFormedUnicode rest

/-- The marker of a revision's UTF-8 bytes in base64url. -/
def bytesMarker : Text := ascii ['b', 'd', 'p', '-', 'b', '6', '4', '_']

/-- The marker of a revision's code units in base64url. -/
def unitsMarker : Text := ascii ['b', 'd', 'p', '-', 'u', '1', '6', '_']

/-- A revision of printable ASCII without quotes. -/
def isUnchanged (revision : Text) : Bool :=
  (utf8Bytes revision).length == revision.length &&
    (utf8Bytes revision).all fun byte ↦ byte == 0x21 || decide (0x23 ≤ byte ∧ byte ≤ 0x7e)

/-- What the entity tag of a revision has between its quotes. -/
def revisionBody (revision : Text) : Text :=
  if isUnchanged revision && !bytesMarker.isPrefixOf revision &&
      !unitsMarker.isPrefixOf revision then
    revision
  else if isWellFormedUnicode revision then bytesMarker ++ base64Url (utf8Bytes revision)
  else unitsMarker ++ base64Url (utf16Bytes revision)

def resourceRevisionEtag (revision : Text) : Text := 34 :: (revisionBody revision ++ [34])

end Revisions

section Conditions

/-- The white space and line terminators that `trim` strips. -/
def isTrimmed (unit : ℕ) : Bool :=
  decide (9 ≤ unit ∧ unit ≤ 13) || unit == 0x20 || unit == 0xa0 || unit == 0x1680 ||
    decide (0x2000 ≤ unit ∧ unit ≤ 0x200a) || unit == 0x2028 || unit == 0x2029 || unit == 0x202f ||
    unit == 0x205f || unit == 0x3000 || unit == 0xfeff

def trim (value : Text) : Text := (value.dropWhile isTrimmed).rdropWhile isTrimmed

/-- A unit of an opaque tag: printable ASCII without a quote, or a byte above ASCII. -/
def isTagUnit (unit : ℕ) : Bool :=
  unit == 0x21 || decide (0x23 ≤ unit ∧ unit ≤ 0x7e) || decide (0x80 ≤ unit ∧ unit ≤ 0xff)

def isBlank (unit : ℕ) : Bool := unit == 9 || unit == 32

def isSeparator (unit : ℕ) : Bool := isBlank unit || unit == 44

/-- A quoted tag at the start of a text, and what follows it. -/
def readQuoted : Text → Option (Text × Text)
  | 34 :: rest =>
    match rest.dropWhile isTagUnit with
    | 34 :: after => some (34 :: (rest.takeWhile isTagUnit ++ [34]), after)
    | _ => none
  | _ => none

/-- `/(?:W\/)?"[\x21\x23-\x7e\x80-\xff]*"/y` -/
def readTag : Text → Option (Text × Text)
  | 87 :: 47 :: rest => (readQuoted rest).map fun found ↦ (87 :: 47 :: found.1, found.2)
  | text => readQuoted text

def startsWeak : Text → Bool
  | 87 :: 47 :: _ => true
  | _ => false

/-- `replace(/^W\//, "")` -/
def withoutWeak : Text → Text
  | 87 :: 47 :: rest => rest
  | text => text

def tagMatches (strong : Bool) (candidate current : Text) : Bool :=
  if strong then !startsWeak candidate && !startsWeak current && candidate == current
  else withoutWeak candidate == withoutWeak current

variable {candidate text rest : Text}

theorem readQuoted_length (h : readQuoted text = some (candidate, rest)) :
    rest.length < text.length := by
  unfold readQuoted at h
  split at h
  · next rest' =>
    split at h
    · next after hafter =>
      obtain ⟨-, rfl⟩ := Prod.mk.inj (Option.some.inj h)
      have := (List.dropWhile_sublist isTagUnit (l := rest')).length_le
      rw [hafter] at this
      simp only [List.length_cons] at this ⊢
      omega
    · cases h
  · cases h

theorem readTag_length (h : readTag text = some (candidate, rest)) : rest.length < text.length := by
  unfold readTag at h
  split at h
  · obtain ⟨found, hfound, heq⟩ := Option.map_eq_some_iff.mp h
    obtain ⟨-, rfl⟩ := Prod.mk.inj heq
    have := readQuoted_length hfound
    simp only [List.length_cons]
    omega
  · exact readQuoted_length h

/-- The loop over the tags of a list, at the rest of the text. -/
def matchTags (current : Option Text) (strong matched : Bool) (text : Text) : Bool :=
  match _h : text.dropWhile isSeparator with
  | [] => matched
  | unit :: tail =>
    match _h' : readTag (unit :: tail) with
    | none => false
    | some (candidate, rest) =>
      let matched := matched || current.any (tagMatches strong candidate)
      match _h'' : rest.dropWhile isBlank with
      | [] => matched
      | 44 :: more => matchTags current strong matched (44 :: more)
      | _ => false
  termination_by text.length
  decreasing_by
    have hstart := (List.dropWhile_sublist isSeparator (l := text)).length_le
    have hafter := (List.dropWhile_sublist isBlank (l := rest)).length_le
    have htag := readTag_length _h'
    rw [_h] at hstart
    rw [_h''] at hafter
    omega

def tagListMatches (value : Text) (current : Option Text) (strong : Bool) : Bool :=
  if trim value = [42] then true else matchTags current strong false value

inductive ReadStatus where
  | ok
  | notModified
  | preconditionFailed
  deriving DecidableEq

def conditionalReadStatus (ifMatch ifNoneMatch : Option Text) (etag : Option Text) : ReadStatus :=
  if ifMatch.any fun value ↦ !tagListMatches value etag true then .preconditionFailed
  else if ifNoneMatch.any fun value ↦ tagListMatches value etag false then .notModified
  else .ok

end Conditions

section Grammar

/-- `entity-tag = [ weak ] opaque-tag` -/
structure EntityTag where
  weak : Bool
  body : Text
  units : ∀ unit ∈ body, isTagUnit unit = true

def EntityTag.text (tag : EntityTag) : Text :=
  (if tag.weak then [87, 47] else []) ++ 34 :: (tag.body ++ [34])

/-- `OWS = *( SP / HTAB )` -/
def Blank (text : Text) : Prop := ∀ unit ∈ text, isBlank unit = true

/-- A list of tags in which empty elements are ignored:
`OWS [ entity-tag ] OWS *( "," OWS [ entity-tag ] OWS )`. -/
inductive TagList : Text → List EntityTag → Prop
  | empty {blank : Text} (h : Blank blank) : TagList blank []
  | last {before after : Text} (tag : EntityTag) (hbefore : Blank before) (hafter : Blank after) :
      TagList (before ++ (tag.text ++ after)) [tag]
  | skip {blank rest : Text} {tags : List EntityTag} (h : Blank blank) (more : TagList rest tags) :
      TagList (blank ++ 44 :: rest) tags
  | cons {before after rest : Text} {tags : List EntityTag} (tag : EntityTag)
      (hbefore : Blank before) (hafter : Blank after) (more : TagList rest tags) :
      TagList (before ++ (tag.text ++ (after ++ 44 :: rest))) (tag :: tags)

/-- The strong comparison takes two tags that are not weak, the weak one any two. -/
def EntityTag.Matches (strong : Bool) (tag current : EntityTag) : Prop :=
  tag.body = current.body ∧ (strong = true → tag.weak = false ∧ current.weak = false)

/-- The field value `*`. -/
def AnyTag (value : Text) : Prop :=
  ∃ before after, Blank before ∧ Blank after ∧ value = before ++ 42 :: after

/-- A field value that matches the current tag: `*`, or a well-formed list with such a tag. -/
def FieldMatches (strong : Bool) (current : Option EntityTag) (value : Text) : Prop :=
  AnyTag value ∨ ∃ tags, TagList value tags ∧ ∃ tag ∈ tags, ∃ other ∈ current,
    tag.Matches strong other

/-- The evaluation of the two fields for an existing representation. -/
inductive Evaluates (ifMatch ifNoneMatch : Option Text) (current : Option EntityTag) :
    ReadStatus → Prop
  | preconditionFailed {value : Text} (present : value ∈ ifMatch)
      (fails : ¬ FieldMatches true current value) : Evaluates ifMatch ifNoneMatch current
        .preconditionFailed
  | notModified {value : Text} (holds : ∀ value ∈ ifMatch, FieldMatches true current value)
      (present : value ∈ ifNoneMatch) (found : FieldMatches false current value) :
      Evaluates ifMatch ifNoneMatch current .notModified
  | ok (holds : ∀ value ∈ ifMatch, FieldMatches true current value)
      (absent : ∀ value ∈ ifNoneMatch, ¬ FieldMatches false current value) :
      Evaluates ifMatch ifNoneMatch current .ok

/-- A field that is an asterisk in white space that is none of HTTP. -/
def StrayAsterisk (value : Text) : Prop := trim value = [42] ∧ ¬ AnyTag value

end Grammar

end Bdp.ReadHttp
