import Bdp.Library.CodeUnits
import Bdp.Retained.LocalReference

/-!
# Canonical URLs and the preflight of references

`parseCanonicalHttpUrl`, `parseCanonicalScope`, `assertCanonicalPathSegments` and the preflight of a
reference against a Scope, over the URL parser of the platform. Behind a canonical Scope every
canonical path makes a canonical URL, and every absolute reference that starts with the Scope is
taken for a local one, however its path is spelled.
-/

namespace Bdp.Normalize

open CodeUnits
open List (cons_append append_assoc all_eq_true length_cons)
open Bool (and_eq_true not_eq_true')

section Segments

def letters? (text : Text) : Option (List Char) :=
  if text.all (· < 128) then some (text.map Char.ofNat) else none

/-- `decodeURIComponent` of a text of ASCII, as the URI format and the URL parser leave it. -/
def decodeURIComponent (text : Text) : Option (List Char) := do
  let letters ← letters? text
  UrlPath.decodeComponent letters.length letters

/-- Whether the segment is accepted; the encoder that it is compared with writes ASCII only. -/
def validateCanonicalIdSegment (segment : Text) : Bool :=
  (letters? segment).any UrlPath.canonicalSegment

def assertCanonicalPathSegments (path : Text) : Bool :=
  (path.splitOn 47).all validateCanonicalIdSegment

/-- The segments of a URL path; the first and the last one may be empty. -/
def validateCanonicalUrlPath (pathname : Text) : Bool :=
  let segments := pathname.splitOn 47
  segments.zipIdx.all fun (segment, index) ↦
    ((index == 0 || index + 1 == segments.length) && segment.isEmpty) ||
      validateCanonicalIdSegment segment

end Segments

section Escapes

def isUpperHex (unit : ℕ) : Bool :=
  decide (48 ≤ unit ∧ unit ≤ 57) || decide (65 ≤ unit ∧ unit ≤ 70)

def isHex (unit : ℕ) : Bool := isUpperHex unit || decide (97 ≤ unit ∧ unit ≤ 102)

def hexDigitValue (unit : ℕ) : ℕ := if unit ≤ 57 then unit - 48 else unit - 55

def isUnreserved (unit : ℕ) : Bool :=
  decide (65 ≤ unit ∧ unit ≤ 90) || decide (97 ≤ unit ∧ unit ≤ 122) ||
    decide (48 ≤ unit ∧ unit ≤ 57) || [45, 46, 95, 126].contains unit

def validateCompletePercentEscapes : Text → Bool
  | [] => true
  | unit :: rest =>
    if unit = 37 then
      match rest with
      | high :: low :: rest => isHex high && isHex low && validateCompletePercentEscapes rest
      | _ => false
    else validateCompletePercentEscapes rest

def validateCanonicalPercentEscapes : Text → Bool
  | [] => true
  | unit :: rest =>
    if unit = 37 then
      match rest with
      | high :: low :: rest =>
        isUpperHex high && isUpperHex low &&
          !isUnreserved (16 * hexDigitValue high + hexDigitValue low) &&
          validateCanonicalPercentEscapes rest
      | _ => false
    else validateCanonicalPercentEscapes rest

end Escapes

section Urls

/-- What the URL parser reports of a URL. -/
structure Url where
  href : Text
  protocol : Text
  username : Text
  password : Text
  origin : Text
  pathname : Text
  search : Text
  deriving DecidableEq

/-- The URL parser of the platform; it fails where `URL.canParse` is false. -/
abbrev UrlParser := Text → Option Url

variable (parse : UrlParser)

def parseCanonicalHttpUrl (value : Text) : Bool :=
  match parse value with
  | none => false
  | some parsed =>
    (parsed.protocol == ascii "http:".toList || parsed.protocol == ascii "https:".toList) &&
      parsed.username.isEmpty && parsed.password.isEmpty && !value.contains 35 &&
      parsed.href == value && validateCompletePercentEscapes value &&
      validateCanonicalPercentEscapes parsed.pathname

def parseCanonicalScope (value : Text) : Bool :=
  match parse value with
  | none => false
  | some parsed =>
    parseCanonicalHttpUrl parse value && !value.contains 63 &&
      parsed.pathname.getLast? == some 47 && validateCanonicalUrlPath parsed.pathname

/-- A canonical Scope with its URL. -/
structure Scope where
  text : Text
  url : Url
  parsed : parse text = some url
  canonical : parseCanonicalScope parse text = true

end Urls

section Preflight

def isAlpha (unit : ℕ) : Bool :=
  decide (65 ≤ unit ∧ unit ≤ 90) || decide (97 ≤ unit ∧ unit ≤ 122)

def isSchemeUnit (unit : ℕ) : Bool :=
  isAlpha unit || decide (48 ≤ unit ∧ unit ≤ 57) || [43, 45, 46].contains unit

def afterScheme : Text → Option Text
  | [] => none
  | first :: rest =>
    if isAlpha first then
      match rest.dropWhile isSchemeUnit with
      | 58 :: rest => some rest
      | _ => none
    else none

def hasScheme (text : Text) : Bool := (afterScheme text).isSome

/-- The path of an absolute reference as it is written, before the URL parser walks it. -/
def rawPath (original : Text) : Option Text :=
  match afterScheme original with
  | some (47 :: 47 :: rest) =>
    match rest.dropWhile fun unit ↦ !([47, 63, 35].contains unit) with
    | 47 :: rest => some (47 :: rest.takeWhile fun unit ↦ !([63, 35].contains unit))
    | _ => none
  | _ => none

/-- Whether the segments start with segments that decode to the ones of the base. -/
def decodesTo : List (List Char) → List Text → Bool
  | [], _ => true
  | segment :: base, segments =>
    decodeURIComponent (segments.headD []) == some segment && decodesTo base segments.tail

/-- `none` where decoding the base throws. -/
def isHttpScopeCandidate (scope parsed : Url) (original : Text) : Option Bool :=
  if parsed.protocol ≠ scope.protocol ∨ parsed.origin ≠ scope.origin then some false
  else do
    let base ← ((scope.pathname.splitOn 47).drop 1).dropLast.mapM decodeURIComponent
    pure <| [some parsed.pathname, rawPath original].any fun path ↦
      match path with
      | none => false
      | some path =>
        let segments := path.splitOn 47
        decide (base.length + 2 ≤ segments.length) && decodesTo base segments.tail

variable {parse : UrlParser} (scope : Scope parse)

def preflightReference (isCreationId : Bool) (reference : Text) : Bool :=
  if reference.head? = some 64 then true
  else if ¬ hasScheme reference then assertCanonicalPathSegments reference
  else
    match parse reference with
    | none => !isCreationId
    | some parsed =>
      match isHttpScopeCandidate scope.url parsed reference with
      | none => false
      | some false => !isCreationId
      | some true =>
        parseCanonicalHttpUrl parse reference && parsed.search.isEmpty &&
          scope.text.isPrefixOf reference &&
          assertCanonicalPathSegments (reference.drop scope.text.length)

def canonicalReference (uri : Text) : Text := if hasScheme uri then uri else scope.text ++ uri

end Preflight

/-- What the URL standard says of the URLs behind a canonical Scope: its serialization is the origin
and the path, anything behind it parses with the same origin, and a canonical path is kept. -/
structure Standard {parse : UrlParser} (scope : Scope parse) : Prop where
  serialized : scope.text = scope.url.origin ++ scope.url.pathname
  origin : ∃ first scheme authority, scope.url.origin =
    first :: scheme ++ ascii "://".toList ++ authority ∧ isAlpha first = true ∧
      scheme.all isSchemeUnit = true ∧ authority.all (fun unit ↦ !([47, 63, 35].contains unit)) = true
  scalar : ∀ unit ∈ scope.text, unit < 128
  rooted : scope.url.pathname.head? = some 47
  below (rest : Text) : ∃ url, parse (scope.text ++ rest) = some url ∧
    url.protocol = scope.url.protocol ∧ url.origin = scope.url.origin
  appended {path : Text} (h : assertCanonicalPathSegments path = true) :
    parse (scope.text ++ path) = some { scope.url with
      href := scope.text ++ path
      pathname := scope.url.pathname ++ path }

variable {unit : ℕ}
variable {letter : Char} {text : Text}

section Escapes

theorem validateCanonicalPercentEscapes_cons (h : unit ≠ 37) (rest : Text) :
    validateCanonicalPercentEscapes (unit :: rest) = validateCanonicalPercentEscapes rest := by
  rw [validateCanonicalPercentEscapes.eq_def]
  simp [h]

theorem validateCompletePercentEscapes_cons (h : unit ≠ 37) (rest : Text) :
    validateCompletePercentEscapes (unit :: rest) = validateCompletePercentEscapes rest := by
  rw [validateCompletePercentEscapes.eq_def]
  simp [h]

variable {right left : Text}

theorem validateCanonicalPercentEscapes_append
    (hleft : validateCanonicalPercentEscapes left = true) :
    validateCanonicalPercentEscapes (left ++ right) = validateCanonicalPercentEscapes right := by
  fun_induction validateCanonicalPercentEscapes left with
  | case1 => rfl
  | case2 high low rest ih =>
    simp only [and_eq_true] at hleft
    simp [validateCanonicalPercentEscapes, hleft.1, ih hleft.2]
  | case3 => cases hleft
  | case4 unit rest hunit ih =>
    rw [cons_append, validateCanonicalPercentEscapes_cons hunit, ih hleft]

theorem validateCompletePercentEscapes_append (hleft : validateCompletePercentEscapes left = true) :
    validateCompletePercentEscapes (left ++ right) = validateCompletePercentEscapes right := by
  fun_induction validateCompletePercentEscapes left with
  | case1 => rfl
  | case2 high low rest ih =>
    simp only [and_eq_true] at hleft
    simp [validateCompletePercentEscapes, hleft.1, ih hleft.2]
  | case3 => cases hleft
  | case4 unit rest hunit ih =>
    rw [cons_append, validateCompletePercentEscapes_cons hunit, ih hleft]

theorem completePercentEscapes_of_canonical
    (h : validateCanonicalPercentEscapes text = true) : validateCompletePercentEscapes text = true := by
  fun_induction validateCanonicalPercentEscapes text with
  | case1 => rfl
  | case2 high low rest ih =>
    simp only [and_eq_true] at h
    simp [validateCompletePercentEscapes, isHex, h.1.1.1, h.1.1.2, ih h.2]
  | case3 => cases h
  | case4 unit rest hunit ih =>
    rw [validateCompletePercentEscapes_cons hunit]
    exact ih h

variable {byte : UInt8}

theorem isUnreserved_escaped (hliteral : UrlPath.isLiteral letter = false)
    (hbyte : byte ∈ String.utf8EncodeChar letter) : isUnreserved byte.toNat = false := by
  by_cases hascii : letter.toNat < 128
  · rw [Retained.utf8EncodeChar_ascii hascii, List.mem_singleton] at hbyte
    have hall : ∀ code < 128, UrlPath.isLiteral (Char.ofNat code) = false →
        isUnreserved code = false := by
      decide +kernel
    have hcode : byte.toNat = letter.toNat := by
      rw [hbyte, UInt8.toNat_ofNat']
      exact Nat.mod_eq_of_lt (by omega)
    rw [hcode]
    exact hall letter.toNat hascii (by rw [Char.ofNat_toNat, hliteral])
  · have hhigh : 128 ≤ byte.toNat := by
      have hval : ¬ letter.val.toNat ≤ 127 := fun h ↦ hascii (Nat.lt_succ_of_le h)
      simp only [String.utf8EncodeChar, hval, if_false] at hbyte
      split at hbyte
      · have hbound : letter.val.toNat / 64 % 32 < 32 := Nat.mod_lt _ (by decide)
        simp only [List.mem_cons, List.not_mem_nil, or_false] at hbyte
        rcases hbyte with rfl | rfl <;> rw [UInt8.toNat_ofNat'] <;> omega
      · split at hbyte <;> simp only [List.mem_cons, List.not_mem_nil, or_false] at hbyte
        · rcases hbyte with rfl | rfl | rfl <;> rw [UInt8.toNat_ofNat'] <;> omega
        · rcases hbyte with rfl | rfl | rfl | rfl <;> rw [UInt8.toNat_ofNat'] <;> omega
    simp [isUnreserved]
    omega

theorem validateCanonicalPercentEscapes_byte (h : isUnreserved byte.toNat = false)
    (rest : Text) : validateCanonicalPercentEscapes ((UrlPath.encodeByte byte).map Char.toNat ++ rest) =
      validateCanonicalPercentEscapes rest := by
  have hbyte := byte.toNat_lt
  have hdigit : ∀ value < 16, isUpperHex (UrlPath.upperHex value).toNat = true ∧
      hexDigitValue (UrlPath.upperHex value).toNat = value := by
    decide
  have hhigh := hdigit (byte.toNat / 16) (by omega)
  have hlow := hdigit (byte.toNat % 16) (by omega)
  have hsum : 16 * (byte.toNat / 16) + byte.toNat % 16 = byte.toNat := Nat.div_add_mod _ _
  have hescape : '%'.toNat = 37 := rfl
  simp [UrlPath.encodeByte, validateCanonicalPercentEscapes, hescape, hhigh, hlow, hsum, h]

theorem validateCanonicalPercentEscapes_encodeSegment (text : List Char) (rest : Text) :
    validateCanonicalPercentEscapes ((UrlPath.encodeSegment text).map Char.toNat ++ rest) =
      validateCanonicalPercentEscapes rest := by
  induction text with
  | nil => rfl
  | cons letter text ih =>
    have hsegment : UrlPath.encodeSegment (letter :: text) =
        (if UrlPath.isLiteral letter then [letter]
          else (String.utf8EncodeChar letter).flatMap UrlPath.encodeByte) ++
          UrlPath.encodeSegment text := rfl
    rw [hsegment, List.map_append, append_assoc]
    by_cases hliteral : UrlPath.isLiteral letter = true
    · have hunit : letter.toNat ≠ 37 := by
        intro hunit
        apply (Retained.isLiteral_plain hliteral).1
        rw [← Char.ofNat_toNat letter, hunit]
      rw [if_pos hliteral, List.map_singleton, List.singleton_append,
        validateCanonicalPercentEscapes_cons hunit, ih]
    · rw [if_neg hliteral]
      have hbytes : ∀ byte ∈ String.utf8EncodeChar letter, isUnreserved byte.toNat = false :=
        fun byte ↦ isUnreserved_escaped (Bool.eq_false_iff.mpr hliteral)
      generalize String.utf8EncodeChar letter = bytes at hbytes
      induction bytes with
      | nil => exact ih
      | cons byte bytes ihbytes =>
        rw [List.flatMap_cons, List.map_append, append_assoc,
          validateCanonicalPercentEscapes_byte (hbytes byte List.mem_cons_self)]
        exact ihbytes fun other hother ↦ hbytes other (List.mem_cons_of_mem _ hother)

end Escapes

section Paths

theorem letters?_eq_some {letters : List Char} (h : letters? text = some letters) :
    text = letters.map Char.toNat := by
  unfold letters? at h
  split at h
  next hascii =>
    have hcode : ∀ code < 128, (Char.ofNat code).toNat = code := by decide
    rw [← Option.some.inj h, List.map_map]
    apply (List.map_id text).symm.trans
    apply List.map_congr_left
    intro unit hunit
    exact (hcode unit (of_decide_eq_true (all_eq_true.mp hascii unit hunit))).symm
  next => cases h

theorem encodeSegment_lt {text : List Char}
    (h : letter ∈ UrlPath.encodeSegment text) : letter.toNat < 128 := by
  have hdigit : ∀ value < 16, (UrlPath.upperHex value).toNat < 128 := by decide
  obtain ⟨other, -, hmem⟩ := List.mem_flatMap.mp h
  split at hmem
  next hother =>
    rw [List.mem_singleton.mp hmem]
    exact Retained.isLiteral_lt hother
  next =>
    obtain ⟨byte, -, hmem⟩ := List.mem_flatMap.mp hmem
    have hbyte := byte.toNat_lt
    simp only [UrlPath.encodeByte, List.mem_cons, List.not_mem_nil, or_false] at hmem
    obtain rfl | rfl | rfl := hmem
    · decide
    · exact hdigit _ (by omega)
    · exact hdigit _ (by omega)

variable {segment : Text}

section

variable (h : validateCanonicalIdSegment segment = true)
include h

theorem validateCanonicalIdSegment_encoded :
    ∃ decoded, segment = (UrlPath.encodeSegment decoded).map Char.toNat ∧
      decodeURIComponent segment = some decoded := by
  unfold validateCanonicalIdSegment at h
  cases hletters : letters? segment with
  | none =>
    rw [hletters] at h
    cases h
  | some letters =>
    rw [hletters] at h
    obtain ⟨decoded, hdecoded, hencoded, -, -⟩ := Retained.canonicalSegment_decode h
    refine ⟨decoded, hencoded ▸ letters?_eq_some hletters, ?_⟩
    rw [decodeURIComponent, hletters]
    exact hdecoded

theorem validateCanonicalIdSegment_plain (hunit : unit ∈ segment) :
    unit < 128 ∧ unit ≠ 35 ∧ unit ≠ 63 := by
  obtain ⟨decoded, rfl, -⟩ := validateCanonicalIdSegment_encoded h
  obtain ⟨letter, hletter, rfl⟩ := List.mem_map.mp hunit
  have hplain := (Retained.encodeSegment_plain hletter).2
  refine ⟨encodeSegment_lt hletter, fun hhash ↦ ?_, fun hquery ↦ ?_⟩
  · rw [← Char.ofNat_toNat letter, hhash] at hplain
    exact absurd hplain (by decide)
  · rw [← Char.ofNat_toNat letter, hquery] at hplain
    exact absurd hplain (by decide)

end

theorem canonicalSegments_joined {segments : List Text}
    (h : segments.all validateCanonicalIdSegment = true) :
    validateCanonicalPercentEscapes ([47].intercalate segments) = true ∧
      ∀ unit ∈ [47].intercalate segments, unit < 128 ∧ unit ≠ 35 ∧ unit ≠ 63 := by
  induction segments with
  | nil => exact ⟨rfl, by simp⟩
  | cons segment segments ih =>
    rw [List.all_cons, and_eq_true] at h
    obtain ⟨decoded, hencoded, -⟩ := validateCanonicalIdSegment_encoded h.1
    have hescapes (rest : Text) : validateCanonicalPercentEscapes (segment ++ rest) =
        validateCanonicalPercentEscapes rest := by
      rw [hencoded]
      exact validateCanonicalPercentEscapes_encodeSegment decoded rest
    by_cases hne : segments = []
    · subst hne
      rw [List.intercalate_singleton]
      refine ⟨?_, fun unit ↦ validateCanonicalIdSegment_plain h.1⟩
      rw [← List.append_nil segment, hescapes]
      rfl
    · rw [List.intercalate_cons_of_ne_nil hne]
      refine ⟨?_, fun unit hunit ↦ ?_⟩
      · rw [append_assoc, hescapes, List.singleton_append,
          validateCanonicalPercentEscapes_cons (by decide)]
        exact (ih h.2).1
      · rw [append_assoc, List.mem_append, List.mem_append, List.mem_singleton] at hunit
        obtain hunit | rfl | hunit := hunit
        · exact validateCanonicalIdSegment_plain h.1 hunit
        · decide
        · exact (ih h.2).2 unit hunit

variable {path : Text} (h : assertCanonicalPathSegments path = true)
include h

theorem canonicalPath_escapes : validateCanonicalPercentEscapes path = true := by
  have := (canonicalSegments_joined h).1
  rwa [List.intercalate_splitOn] at this

theorem canonicalPath_plain (hunit : unit ∈ path) : unit < 128 ∧ unit ≠ 35 ∧ unit ≠ 63 := by
  have := (canonicalSegments_joined h).2 unit
  rw [List.intercalate_splitOn] at this
  exact this hunit

end Paths

section Scopes

variable {parse : UrlParser} {scope : Scope parse}

theorem Scope.parseCanonicalHttpUrl_text (scope : Scope parse) :
    parseCanonicalHttpUrl parse scope.text = true ∧ 63 ∉ scope.text ∧
      scope.url.pathname.getLast? = some 47 ∧ validateCanonicalUrlPath scope.url.pathname = true := by
  have hcanonical := scope.canonical
  rw [parseCanonicalScope, scope.parsed] at hcanonical
  simp only [and_eq_true, beq_iff_eq, not_eq_true', List.contains_eq_mem,
    decide_eq_false_iff_not] at hcanonical
  exact ⟨hcanonical.1.1.1, hcanonical.1.1.2, hcanonical.1.2, hcanonical.2⟩

theorem parseCanonicalHttpUrl_append (standard : Standard scope) {path : Text}
    (h : assertCanonicalPathSegments path = true) :
    parseCanonicalHttpUrl parse (scope.text ++ path) = true := by
  have hscope := scope.parseCanonicalHttpUrl_text.1
  rw [parseCanonicalHttpUrl, scope.parsed] at hscope
  simp only [and_eq_true, beq_iff_eq, not_eq_true', List.contains_eq_mem,
    decide_eq_false_iff_not] at hscope
  have hhash : 35 ∉ path := fun hmem ↦ (canonicalPath_plain h hmem).2.1 rfl
  have hescapes := canonicalPath_escapes h
  rw [parseCanonicalHttpUrl, standard.appended h]
  simp only [and_eq_true, beq_iff_eq, not_eq_true', List.contains_eq_mem,
    decide_eq_false_iff_not, List.mem_append, not_or]
  refine ⟨⟨⟨⟨⟨hscope.1.1.1.1.1, hscope.1.1.1.1.2⟩, hscope.1.1.1.2, hhash⟩, trivial⟩, ?_⟩, ?_⟩
  · rw [validateCompletePercentEscapes_append hscope.1.2]
    exact completePercentEscapes_of_canonical hescapes
  · rw [validateCanonicalPercentEscapes_append hscope.2]
    exact hescapes

theorem Scope.directories (scope : Scope parse) : ∃ first directories front,
    scope.url.pathname = front ++ [47] ∧ front.splitOn 47 = first :: directories ∧
      ∀ directory ∈ directories, validateCanonicalIdSegment directory = true := by
  obtain ⟨-, -, hlast, hpath⟩ := scope.parseCanonicalHttpUrl_text
  obtain ⟨front, hfront⟩ := List.getLast?_eq_some_iff.mp hlast
  obtain ⟨first, directories, hsplit⟩ :=
    List.exists_cons_of_ne_nil (List.splitOn_ne_nil (47 : ℕ) front)
  refine ⟨first, directories, front, hfront, hsplit, fun directory hdirectory ↦ ?_⟩
  have hsegments : scope.url.pathname.splitOn 47 = first :: (directories ++ [[]]) := by
    rw [hfront, List.splitOn_append_cons_self, hsplit]
    rfl
  obtain ⟨index, hindex, rfl⟩ := List.getElem_of_mem hdirectory
  simp only [validateCanonicalUrlPath, hsegments] at hpath
  have hmem : (directories[index], index + 1) ∈ (first :: (directories ++ [[]])).zipIdx := by
    rw [List.mk_mem_zipIdx_iff_getElem?, List.getElem?_cons_succ,
      List.getElem?_append_left hindex, List.getElem?_eq_getElem hindex]
  have := all_eq_true.mp hpath _ hmem
  simp only [length_cons, List.length_append, List.length_nil, Bool.or_eq_true,
    and_eq_true, beq_iff_eq] at this
  obtain ⟨hedge, -⟩ | hvalid := this
  · omega
  · exact hvalid

theorem mapM_decode {directories : List Text}
    (h : ∀ directory ∈ directories, validateCanonicalIdSegment directory = true) :
    ∃ base, directories.mapM decodeURIComponent = some base ∧ base.length = directories.length ∧
      ∀ more, decodesTo base (directories ++ more) = true := by
  induction directories with
  | nil => exact ⟨[], rfl, rfl, fun _ ↦ rfl⟩
  | cons directory directories ih =>
    obtain ⟨decoded, -, hdecoded⟩ := validateCanonicalIdSegment_encoded (h _ List.mem_cons_self)
    obtain ⟨base, hbase, hlength, hgrown⟩ :=
      ih fun other hother ↦ h other (List.mem_cons_of_mem _ hother)
    refine ⟨decoded :: base, ?_, by rw [length_cons, hlength, length_cons], fun more ↦ ?_⟩
    · simp [List.mapM_cons, hdecoded, hbase]
    · simp [decodesTo, hdecoded, hgrown]

section

variable (standard : Standard scope)
include standard

theorem afterScheme_append (rest : Text) : ∃ authority,
    afterScheme (scope.text ++ rest) = some (47 :: 47 :: (authority ++ (scope.url.pathname ++ rest))) ∧
      authority.all (fun unit ↦ !([47, 63, 35].contains unit)) = true := by
  obtain ⟨first, scheme, authority, horigin, hfirst, hscheme, hauthority⟩ := standard.origin
  refine ⟨authority, ?_, hauthority⟩
  have hseparator : ascii "://".toList = [58, 47, 47] := rfl
  have hsplit : scope.text ++ rest = first :: (scheme ++
      58 :: 47 :: 47 :: (authority ++ (scope.url.pathname ++ rest))) := by
    rw [standard.serialized, horigin, hseparator]
    simp
  have hcolon : isSchemeUnit 58 = false := by decide
  rw [hsplit, afterScheme, if_pos hfirst,
    List.dropWhile_append_of_pos fun unit hunit ↦ all_eq_true.mp hscheme unit hunit,
    List.dropWhile_cons_of_neg (by simp [hcolon])]
  rfl

theorem rawPath_append (rest : Text) : rawPath (scope.text ++ rest) =
      some (scope.url.pathname ++ rest.takeWhile fun unit ↦ !([63, 35].contains unit)) := by
  obtain ⟨authority, hscheme, hauthority⟩ := afterScheme_append standard rest
  obtain ⟨more, hrooted⟩ := List.head?_eq_some_iff.mp standard.rooted
  obtain ⟨hcanonical, hquery, -, -⟩ := scope.parseCanonicalHttpUrl_text
  have hhash : 35 ∉ scope.text := by
    rw [parseCanonicalHttpUrl, scope.parsed] at hcanonical
    simp only [and_eq_true, not_eq_true', List.contains_eq_mem,
      decide_eq_false_iff_not] at hcanonical
    exact hcanonical.1.1.1.2
  have hplain : ∀ unit ∈ more, (!([63, 35].contains unit)) = true := by
    intro unit hunit
    have hmem : unit ∈ scope.text := by
      rw [standard.serialized, hrooted]
      exact List.mem_append_right _ (List.mem_cons_of_mem _ hunit)
    have h63 : unit ≠ 63 := fun heq ↦ hquery (heq ▸ hmem)
    have h35 : unit ≠ 35 := fun heq ↦ hhash (heq ▸ hmem)
    simp [h63, h35]
  simp only [rawPath, hscheme]
  rw [List.dropWhile_append_of_pos fun unit hunit ↦ all_eq_true.mp hauthority unit hunit,
    hrooted, cons_append, List.dropWhile_cons_of_neg (by decide)]
  simp only [List.takeWhile_append_of_pos hplain, cons_append]

variable {rest : Text}

theorem isHttpScopeCandidate_append {parsed : Url}
    (hprotocol : parsed.protocol = scope.url.protocol) (horigin : parsed.origin = scope.url.origin) :
    isHttpScopeCandidate scope.url parsed (scope.text ++ rest) = some true := by
  obtain ⟨first, directories, front, hfront, hsplit, hcanonical⟩ := scope.directories
  obtain ⟨base, hbase, hlength, hgrown⟩ := mapM_decode hcanonical
  have hsegments (more : Text) :
      (scope.url.pathname ++ more).splitOn 47 = first :: (directories ++ more.splitOn 47) := by
    rw [hfront, append_assoc, List.singleton_append, List.splitOn_append_cons_self, hsplit]
    rfl
  have hinner : ((scope.url.pathname.splitOn 47).drop 1).dropLast = directories := by
    have := hsegments []
    rw [List.append_nil] at this
    simp [this]
  have hmore (more : Text) : (more.splitOn 47).length ≠ 0 := fun hzero ↦
    List.splitOn_ne_nil (47 : ℕ) more (List.length_eq_zero_iff.mp hzero)
  rw [isHttpScopeCandidate, if_neg (by simp [hprotocol, horigin]), hinner, hbase,
    rawPath_append standard]
  simp only [Option.bind_eq_bind, Option.bind_some, Option.pure_def, Option.some.injEq,
    List.any_cons, Bool.or_eq_true]
  right
  left
  simp only [hsegments, length_cons, List.length_append, List.tail_cons, hgrown, Bool.and_true,
    decide_eq_true_eq]
  have := hmore (rest.takeWhile fun unit ↦ !([63, 35].contains unit))
  omega

theorem preflightReference_local {isCreationId : Bool}
    {reference : Text} (h : preflightReference scope isCreationId reference = true)
    (hspelled : canonicalReference scope reference = scope.text ++ rest)
    (hbinding : rest.head? ≠ some 64) :
    parseCanonicalHttpUrl parse (scope.text ++ rest) = true ∧
      assertCanonicalPathSegments rest = true := by
  unfold canonicalReference at hspelled
  split at hspelled
  next hscheme =>
    subst hspelled
    obtain ⟨url, hurl, hprotocol, horigin⟩ := standard.below rest
    have hhead : (scope.text ++ rest).head? ≠ some 64 := by
      intro hhead
      obtain ⟨tail, htail⟩ := List.head?_eq_some_iff.mp hhead
      rw [htail, hasScheme, afterScheme, if_neg (by decide)] at hscheme
      cases hscheme
    rw [preflightReference, if_neg hhead, if_neg (by simp [hscheme]), hurl] at h
    simp only [isHttpScopeCandidate_append standard hprotocol horigin, and_eq_true,
      List.drop_left] at h
    exact ⟨h.1.1.1, h.2⟩
  next hscheme =>
    have hrest : reference = rest := List.append_cancel_left hspelled
    subst hrest
    rw [preflightReference, if_neg hbinding, if_pos (by simpa using hscheme)] at h
    exact ⟨parseCanonicalHttpUrl_append standard h, h⟩

end

end Scopes

end Bdp.Normalize
