import Bdp.Library.UrlPath
import Bdp.Retained.Contract

/-!
# Canonical local references

`canonicalLocalReference` and the identity check that it ends with. A reference below the Scope, or
relative to it, is decoded and encoded again segment by segment. The identity check then strips the
Scope once more from a path that is itself spelled as an absolute URL; apart from those paths the
result is the Scope followed by the canonical encoding of the decoded segments.
-/

namespace Bdp.Retained

open UrlPath (Scope isLiteral encodeSegment decodeComponent canonicalSegment upperHex encodeByte)

section Definitions

/-- A Scope as `parseCanonicalScope` admits it: an HTTP or HTTPS URL. -/
structure HttpScope extends Scope where
  http : scheme = ['h', 't', 't', 'p'] ∨ scheme = ['h', 't', 't', 'p', 's']

/-- `/^https?:\/\//i`: up to the first slash stands `http:` or `https:`, and a second slash
follows it. -/
def hasHttpScheme (text : List Char) : Bool :=
  let name := (text.takeWhile fun letter ↦ letter != '/').map Char.toLower
  (name == ['h', 't', 't', 'p', ':'] || name == ['h', 't', 't', 'p', 's', ':']) &&
    ['/', '/'].isPrefixOf (text.dropWhile fun letter ↦ letter != '/')

def isSpace (letter : Char) : Bool :=
  let code := letter.toNat
  (9 ≤ code && code ≤ 13) || code == 32 || code == 0xa0 || code == 0x1680 ||
    (0x2000 ≤ code && code ≤ 0x200a) || code == 0x2028 || code == 0x2029 || code == 0x202f ||
    code == 0x205f || code == 0x3000 || code == 0xfeff

/-- `/[?#\\\s]/u` -/
def isMisspelled (letter : Char) : Bool :=
  letter == '?' || letter == '#' || letter == '\\' || isSpace letter

/-- `new URL(scope + local).href` of a local path of canonical segments: the parser walks the dot
segments of the whole path and keeps every other character. -/
def confinedHref (scope : HttpScope) (path : List Char) : List Char :=
  scope.origin ++ Scope.walk [] (scope.directories ++ path.splitOn '/')

variable (scope : HttpScope)

def malformed : Problem := problem "malformed-request" 400 "never"

/-- The part of a reference behind the Scope; a relative reference is all of it. -/
def stripScope (supplied : List Char) : Except Problem (List Char) :=
  if hasHttpScheme supplied then
    match supplied.dropPrefix? scope.href.toList with
    | some rest => .ok rest
    | none => .error malformed
  else .ok supplied

def canonicalCreatedId (supplied : List Char) : Except Problem (List Char) :=
  match stripScope scope supplied with
  | .error error => .error error
  | .ok path =>
    if (path.splitOn '/').all canonicalSegment = true ∧ path ≠ [] ∧ '?' ∉ path ∧ '#' ∉ path ∧
      path.head? ≠ some '@' ∧ confinedHref scope path = scope.href.toList ++ path
    then .ok (confinedHref scope path)
    else .error malformed

def decodedSegments (path : List Char) : Option (List (List Char)) :=
  (path.splitOn '/').mapM fun segment ↦ decodeComponent segment.length segment

/-- Segments encoded canonically and joined. -/
def encodedPath (segments : List (List Char)) : List Char :=
  ['/'].intercalate (segments.map encodeSegment)

def canonicalLocalReference (supplied : List Char) : Except Problem (List Char) :=
  match stripScope scope supplied with
  | .error error => .error error
  | .ok path =>
    if path.any isMisspelled then .error malformed
    else
      match decodedSegments path with
      | none => .error malformed
      | some segments => canonicalCreatedId scope (encodedPath segments)

end Definitions

variable {text : List Char}

section Encoding

/-- The bytes that an encoded segment stands for. -/
def escapedBytes : List Char → List UInt8
  | '%' :: high :: low :: rest =>
    UInt8.ofNat (16 * (UrlPath.hexDigit high).getD 0 + (UrlPath.hexDigit low).getD 0) ::
      escapedBytes rest
  | letter :: rest => UInt8.ofNat letter.toNat :: escapedBytes rest
  | [] => []

theorem hexDigit_upperHex {value : ℕ} (h : value < 16) :
    UrlPath.hexDigit (upperHex value) = some value := by
  have hall : ∀ value < 16, UrlPath.hexDigit (upperHex value) = some value := by decide
  exact hall value h

theorem escapedBytes_encodeByte (byte : UInt8) (rest : List Char) :
    escapedBytes (encodeByte byte ++ rest) = byte :: escapedBytes rest := by
  have hbyte := byte.toNat_lt
  have hhigh : byte.toNat / 16 < 16 := by omega
  have hlow : byte.toNat % 16 < 16 := by omega
  have hsum : 16 * (byte.toNat / 16) + byte.toNat % 16 = byte.toNat := Nat.div_add_mod _ _
  simp [encodeByte, escapedBytes, hexDigit_upperHex hhigh, hexDigit_upperHex hlow, hsum]

theorem escapedBytes_bytes (bytes : List UInt8) (rest : List Char) :
    escapedBytes (bytes.flatMap encodeByte ++ rest) = bytes ++ escapedBytes rest := by
  induction bytes with
  | nil => rfl
  | cons byte bytes ih =>
    rw [List.flatMap_cons, List.append_assoc, escapedBytes_encodeByte, ih, List.cons_append]

variable {letter : Char}

theorem isLiteral_lt (h : isLiteral letter = true) : letter.toNat < 128 := by
  have hval : letter.toNat = letter.val.toNat := rfl
  simp only [isLiteral, Char.isAlphanum, Char.isAlpha, Char.isUpper, Char.isLower, Char.isDigit,
    Bool.or_eq_true, decide_eq_true_eq, Bool.and_eq_true, UInt32.le_iff_toNat_le] at h
  rcases h with ((⟨_, h⟩ | ⟨_, h⟩) | ⟨_, h⟩) | h
  · exact hval ▸ lt_of_le_of_lt h (by decide)
  · exact hval ▸ lt_of_le_of_lt h (by decide)
  · exact hval ▸ lt_of_le_of_lt h (by decide)
  · have hall : ∀ other ∈ ['.', '_', '~', '!', '$', '&', Char.ofNat 39, '(', ')', '*', '+', ',', ';',
        '=', ':', '@', '-'], other.toNat < 128 := by
      simp only [List.forall_mem_cons, List.not_mem_nil, false_imp_iff, implies_true, and_true]
      decide
    exact hall letter (List.contains_iff_mem.mp h)

theorem isLiteral_plain (h : isLiteral letter = true) :
    letter ≠ '%' ∧ letter ≠ '/' ∧ isMisspelled letter = false := by
  have hall : ∀ code < 128, isLiteral (Char.ofNat code) = true →
      Char.ofNat code ≠ '%' ∧ Char.ofNat code ≠ '/' ∧ isMisspelled (Char.ofNat code) = false := by
    decide +kernel
  have := hall letter.toNat (isLiteral_lt h)
  rw [Char.ofNat_toNat] at this
  exact this h

theorem utf8EncodeChar_ascii (h : letter.toNat < 128) :
    String.utf8EncodeChar letter = [UInt8.ofNat letter.toNat] := by
  have hval : letter.val.toNat ≤ 127 := Nat.le_of_lt_succ h
  simp only [String.utf8EncodeChar, hval, if_true]
  rfl

theorem escapedBytes_encodeSegment (text : List Char) :
    escapedBytes (encodeSegment text) = text.flatMap String.utf8EncodeChar := by
  induction text with
  | nil => rfl
  | cons letter text ih =>
    have hsegment : encodeSegment (letter :: text) =
        (if isLiteral letter then [letter] else (String.utf8EncodeChar letter).flatMap encodeByte) ++
          encodeSegment text := rfl
    rw [hsegment, List.flatMap_cons]
    by_cases hliteral : isLiteral letter = true
    · rw [if_pos hliteral, utf8EncodeChar_ascii (isLiteral_lt hliteral), List.singleton_append,
        escapedBytes.eq_2 _ _ (by
          rintro high low rest rfl
          exact absurd rfl (isLiteral_plain hliteral).1), ih]
      rfl
    · rw [if_neg hliteral, escapedBytes_bytes, ih]

theorem encodeSegment_injective {left right : List Char}
    (h : encodeSegment left = encodeSegment right) : left = right := by
  have hbytes := congrArg escapedBytes h
  rw [escapedBytes_encodeSegment, escapedBytes_encodeSegment] at hbytes
  have hencode : left.utf8Encode = right.utf8Encode := by
    rw [List.utf8Encode, List.utf8Encode, hbytes]
  have hstring : String.ofList left = String.ofList right := by
    apply String.toByteArray_inj.mp
    rw [String.toByteArray_ofList, String.toByteArray_ofList, hencode]
  rw [← String.toList_ofList (l := left), hstring, String.toList_ofList]

theorem upperHex_plain {value : ℕ} (h : value < 16) :
    upperHex value ≠ '/' ∧ isMisspelled (upperHex value) = false := by
  have hall : ∀ value < 16, upperHex value ≠ '/' ∧ isMisspelled (upperHex value) = false := by
    decide
  exact hall value h

theorem encodeSegment_plain (h : letter ∈ encodeSegment text) :
    letter ≠ '/' ∧ isMisspelled letter = false := by
  obtain ⟨other, -, hmem⟩ := List.mem_flatMap.mp h
  split at hmem
  next hother =>
    rw [List.mem_singleton.mp hmem]
    exact (isLiteral_plain hother).2
  next =>
    obtain ⟨byte, -, hmem⟩ := List.mem_flatMap.mp hmem
    have hbyte := byte.toNat_lt
    simp only [encodeByte, List.mem_cons, List.not_mem_nil, or_false] at hmem
    obtain rfl | rfl | rfl := hmem
    · decide
    · exact upperHex_plain (by omega)
    · exact upperHex_plain (by omega)

theorem encodeSegment_eq_self (h : '%' ∉ encodeSegment text) : encodeSegment text = text := by
  induction text with
  | nil => rfl
  | cons letter text ih =>
    have hsegment : encodeSegment (letter :: text) =
        (if isLiteral letter then [letter] else (String.utf8EncodeChar letter).flatMap encodeByte) ++
          encodeSegment text := rfl
    rw [hsegment, List.mem_append, not_or] at h
    by_cases hliteral : isLiteral letter = true
    · rw [hsegment, if_pos hliteral, ih h.2, List.singleton_append]
    · rw [if_neg hliteral] at h
      obtain ⟨byte, bytes, hbytes⟩ := List.exists_cons_of_ne_nil
        (String.utf8EncodeChar_ne_nil (c := letter))
      rw [hbytes, List.flatMap_cons] at h
      exact absurd (List.mem_append_left _ List.mem_cons_self) h.1

end Encoding

variable {segments : List (List Char)} {path : List Char}

section Paths

theorem canonicalSegment_decode {segment : List Char} (h : canonicalSegment segment = true) :
    ∃ decoded, decodeComponent segment.length segment = some decoded ∧
      encodeSegment decoded = segment ∧ segment ≠ [] ∧ decoded ≠ [] := by
  unfold canonicalSegment at h
  split at h
  · cases h
  · next decoded hdecoded =>
    simp only [Bool.and_eq_true, bne_iff_ne, beq_iff_eq] at h
    refine ⟨decoded, hdecoded, h.2, h.1.1.1.1.1.1, ?_⟩
    rintro rfl
    exact h.1.1.1.1.1.1 h.2.symm

theorem splitOn_encodedPath (h : segments ≠ []) :
    (encodedPath segments).splitOn '/' = segments.map encodeSegment := by
  apply List.splitOn_intercalate
  · intro segment hsegment hslash
    obtain ⟨decoded, -, rfl⟩ := List.mem_map.mp hsegment
    exact (encodeSegment_plain hslash).1 rfl
  · simpa using h

theorem splitOn_http (h : hasHttpScheme text = true) :
    ∃ name rest, text.splitOn '/' = name :: [] :: rest ∧
      (name.map Char.toLower = ['h', 't', 't', 'p', ':'] ∨
        name.map Char.toLower = ['h', 't', 't', 'p', 's', ':']) := by
  simp only [hasHttpScheme, Bool.and_eq_true, List.isPrefixOf_iff_prefix, Bool.or_eq_true,
    beq_iff_eq] at h
  obtain ⟨hname, rest, hrest⟩ := h
  have htext := List.takeWhile_append_dropWhile (p := fun letter ↦ letter != '/') (l := text)
  have hslash : '/' ∉ text.takeWhile fun letter ↦ letter != '/' := by
    intro hmem
    exact absurd (List.mem_takeWhile_imp hmem) (by decide)
  refine ⟨text.takeWhile fun letter ↦ letter != '/', rest.splitOn '/', ?_, hname⟩
  calc text.splitOn '/'
      = ((text.takeWhile fun letter ↦ letter != '/') ++ '/' :: ([] ++ '/' :: rest)).splitOn '/' := by
        rw [List.nil_append]
        exact congrArg _ (htext.symm.trans (by rw [← hrest]; rfl))
    _ = (text.takeWhile fun letter ↦ letter != '/').splitOn '/' ++
          ([].splitOn '/' ++ rest.splitOn '/') := by
        rw [List.splitOn_append_cons_self, List.splitOn_append_cons_self]
    _ = (text.takeWhile fun letter ↦ letter != '/') :: [] :: rest.splitOn '/' := by
        rw [List.splitOn_eq_singleton hslash]
        rfl

theorem mapM_decode (h : ∀ segment ∈ segments, canonicalSegment segment = true) :
    ∃ decoded, segments.mapM (fun segment ↦ decodeComponent segment.length segment) = some decoded ∧
      decoded.map encodeSegment = segments ∧ ∀ segment ∈ decoded, segment ≠ [] := by
  induction segments with
  | nil => exact ⟨[], rfl, rfl, fun _ hmem ↦ absurd hmem List.not_mem_nil⟩
  | cons segment segments ih =>
    obtain ⟨first, hfirst, hencode, -, hne⟩ := canonicalSegment_decode (h segment List.mem_cons_self)
    obtain ⟨rest, hrest, hencodes, hnes⟩ := ih fun other hother ↦
      h other (List.mem_cons_of_mem segment hother)
    refine ⟨first :: rest, ?_, ?_, ?_⟩
    · simp only [List.mapM_cons, hfirst, hrest]
      rfl
    · rw [List.map_cons, hencode, hencodes]
    · intro other hother
      obtain rfl | hother := List.mem_cons.mp hother
      · exact hne
      · exact hnes other hother

theorem canonical_path (h : (path.splitOn '/').all canonicalSegment = true) :
    ∃ segments, decodedSegments path = some segments ∧ encodedPath segments = path ∧
      path.any isMisspelled = false ∧ hasHttpScheme path = false ∧
      ∀ segment ∈ segments, segment ≠ [] := by
  have hall := List.all_eq_true.mp h
  obtain ⟨segments, hsegments, hencode, hne⟩ := mapM_decode hall
  refine ⟨segments, hsegments, ?_, ?_, ?_, hne⟩
  · rw [encodedPath, hencode]
    exact List.intercalate_splitOn '/'
  · rw [List.any_eq_false]
    intro letter hletter
    by_cases hslash : letter = '/'
    · rw [hslash]
      decide
    · obtain ⟨segment, hsegment, hletter⟩ := UrlPath.exists_mem_splitOn hslash hletter
      rw [← hencode] at hsegment
      obtain ⟨decoded, -, rfl⟩ := List.mem_map.mp hsegment
      rw [(encodeSegment_plain hletter).2]
      exact Bool.false_ne_true
  · rw [Bool.eq_false_iff]
    intro hhttp
    obtain ⟨name, rest, hsplit, -⟩ := splitOn_http hhttp
    obtain ⟨_, _, _, hempty, _⟩ := canonicalSegment_decode (hall [] (by simp [hsplit]))
    exact hempty rfl

end Paths

section Identity

variable {scope : HttpScope} {supplied result : List Char}

/-- What stands behind one occurrence of the Scope, decoded once and segment by segment. -/
def localSegments (scope : HttpScope) (supplied : List Char) : Option (List (List Char)) :=
  match stripScope scope supplied with
  | .ok path => decodedSegments path
  | .error _ => none

/-- An identity is the Scope followed by the encoding of the nonempty local segments that were
supplied, and is its own identity. -/
def CanonicalOnce (scope : HttpScope) (supplied result : List Char) : Prop :=
  ∃ segments, localSegments scope supplied = some segments ∧
    (∀ segment ∈ segments, segment ≠ []) ∧
    result = scope.href.toList ++ encodedPath segments ∧
    canonicalLocalReference scope result = .ok result

/-- The decoded local path is encoded as the text of an absolute HTTP URL. -/
def EncodesUrl (scope : HttpScope) (supplied : List Char) : Prop :=
  ∃ segments, localSegments scope supplied = some segments ∧
    hasHttpScheme (encodedPath segments) = true

/-- An identity is the Scope and a path of canonical segments: the checked path itself, or what
stands behind the Scope in it. -/
theorem canonicalCreatedId_eq_ok (h : canonicalCreatedId scope supplied = .ok result) :
    ∃ path, stripScope scope supplied = .ok path ∧
      (path.splitOn '/').all canonicalSegment = true ∧ result = scope.href.toList ++ path ∧
      ∀ other, stripScope scope other = .ok path → canonicalCreatedId scope other = .ok result := by
  unfold canonicalCreatedId at h
  cases hpath : stripScope scope supplied with
  | error problem =>
    rw [hpath] at h
    cases h
  | ok path =>
    rw [hpath] at h
    simp only at h
    split at h
    · next hadmitted =>
      have hresult : confinedHref scope path = result := Except.ok.inj h
      obtain ⟨hcanonical, hne, hquery, hfragment, halias, hconfined⟩ := hadmitted
      refine ⟨path, rfl, hcanonical, hresult ▸ hconfined, ?_⟩
      intro other hother
      rw [canonicalCreatedId, hother]
      simp only
      rw [if_pos ⟨hcanonical, hne, hquery, hfragment, halias, hconfined⟩, hresult]
    · cases h

theorem canonicalLocalReference_eq_ok (h : canonicalLocalReference scope supplied = .ok result) :
    ∃ segments, localSegments scope supplied = some segments ∧
      canonicalCreatedId scope (encodedPath segments) = .ok result := by
  unfold canonicalLocalReference at h
  unfold localSegments
  cases hpath : stripScope scope supplied with
  | error problem =>
    rw [hpath] at h
    cases h
  | ok path =>
    rw [hpath] at h
    simp only at h ⊢
    split at h
    · cases h
    · cases hsegments : decodedSegments path with
      | none =>
        rw [hsegments] at h
        cases h
      | some segments =>
        rw [hsegments] at h
        exact ⟨segments, rfl, h⟩

theorem hasHttpScheme_append (path : List Char) :
    hasHttpScheme (scope.href.toList ++ path) = true := by
  have hhref : scope.href.toList ++ path = scope.scheme ++ ':' :: '/' :: '/' ::
        (scope.authority ++ Scope.directoryPath scope.directories ++ path) := by
    rw [Scope.href, String.toList_ofList, Scope.origin]
    simp
  rw [hhref]
  obtain hscheme | hscheme := scope.http <;> rw [hscheme] <;> rfl

theorem stripScope_append (path : List Char) :
    stripScope scope (scope.href.toList ++ path) = .ok path := by
  have hdrop : (scope.href.toList ++ path).dropPrefix? scope.href.toList = some path := by
    apply List.dropPrefix?_eq_some_iff.mpr
    exact ⟨scope.href.toList, rfl, beq_self_eq_true _⟩
  rw [stripScope, if_pos (hasHttpScheme_append path), hdrop]

theorem stripScope_plain (h : hasHttpScheme path = false) : stripScope scope path = .ok path := by
  rw [stripScope, h]
  rfl

theorem canonicalCreatedId_fixed (h : canonicalCreatedId scope supplied = .ok result) :
    canonicalLocalReference scope result = .ok result ∧
      ∃ segments, localSegments scope result = some segments ∧
        (∀ segment ∈ segments, segment ≠ []) ∧ hasHttpScheme (encodedPath segments) = false ∧
        result = scope.href.toList ++ encodedPath segments := by
  obtain ⟨path, -, hcanonical, rfl, hagain⟩ := canonicalCreatedId_eq_ok h
  obtain ⟨segments, hsegments, hencode, hspelled, hplain, hne⟩ := canonical_path hcanonical
  constructor
  · rw [canonicalLocalReference, stripScope_append]
    simp only
    rw [hspelled, hsegments, if_neg Bool.false_ne_true]
    simp only
    rw [hencode]
    exact hagain path (stripScope_plain hplain)
  · refine ⟨segments, ?_, hne, hencode ▸ hplain, by rw [hencode]⟩
    rw [localSegments, stripScope_append]
    exact hsegments

theorem href_append_ne (scope : HttpScope) (path : List Char) : scope.href.toList ++ path ≠ path := by
  intro h
  have hlength := congrArg List.length h
  have hhref : scope.href.toList =
      scope.scheme ++ "://".toList ++ scope.authority ++ Scope.directoryPath scope.directories := by
    rw [Scope.href, String.toList_ofList, Scope.origin]
  rw [hhref] at hlength
  simp only [Scope.directoryPath, List.length_append, List.length_cons] at hlength
  omega

theorem stripScope_http (hhttp : hasHttpScheme supplied = true)
    (h : stripScope scope supplied = .ok path) : supplied = scope.href.toList ++ path := by
  rw [stripScope, if_pos hhttp] at h
  split at h
  · next rest hrest =>
    obtain ⟨front, hsplit, hfront⟩ := List.dropPrefix?_eq_some_iff.mp hrest
    rw [← Except.ok.inj h, hsplit, eq_of_beq hfront]
  · cases h

theorem localSegments_ne_nil
    (h : localSegments scope supplied = some segments) : segments ≠ [] := by
  unfold localSegments at h
  split at h
  · next path _ =>
    rintro rfl
    obtain ⟨first, rest, hsplit⟩ := List.exists_cons_of_ne_nil (List.splitOn_ne_nil '/' path)
    rw [decodedSegments, hsplit, List.mapM_cons] at h
    cases hfirst : decodeComponent first.length first with
    | none => simp [hfirst] at h
    | some decoded =>
      cases hrest : rest.mapM fun segment ↦ decodeComponent segment.length segment with
      | none => simp [hfirst, hrest] at h
      | some decodeds => simp [hfirst, hrest] at h
  · cases h

theorem encodedPath_injective {left right : List (List Char)} (hleft : left ≠ [])
    (hright : right ≠ []) (h : encodedPath left = encodedPath right) : left = right := by
  have hsegments : left.map encodeSegment = right.map encodeSegment := by
    rw [← splitOn_encodedPath hleft, h, splitOn_encodedPath hright]
  exact List.map_injective_iff.mpr (fun _ _ ↦ encodeSegment_injective) hsegments

section

variable (h : canonicalLocalReference scope supplied = .ok result)
include h

theorem localSegments_identity (hplain : ¬ EncodesUrl scope supplied) :
    localSegments scope supplied = localSegments scope result := by
  obtain ⟨segments, hsegments, hcreated⟩ := canonicalLocalReference_eq_ok h
  obtain ⟨-, others, hothers, -, -, hresult⟩ := canonicalCreatedId_fixed hcreated
  obtain ⟨path, hpath, -, hscope, -⟩ := canonicalCreatedId_eq_ok hcreated
  have hhttp : hasHttpScheme (encodedPath segments) = false := by
    rw [Bool.eq_false_iff]
    exact fun hhttp ↦ hplain ⟨segments, hsegments, hhttp⟩
  rw [stripScope_plain hhttp] at hpath
  have hencode : scope.href.toList ++ encodedPath segments =
      scope.href.toList ++ encodedPath others := by
    calc scope.href.toList ++ encodedPath segments = scope.href.toList ++ path := by
          rw [Except.ok.inj hpath]
      _ = result := hscope.symm
      _ = scope.href.toList ++ encodedPath others := hresult
  rw [hsegments, hothers, encodedPath_injective (localSegments_ne_nil hsegments)
    (localSegments_ne_nil hothers) (List.append_cancel_left hencode)]

theorem not_encodesUrl_identity : ¬ EncodesUrl scope result := by
  obtain ⟨_, -, hcreated⟩ := canonicalLocalReference_eq_ok h
  obtain ⟨-, segments, hsegments, -, hplain, -⟩ := canonicalCreatedId_fixed hcreated
  rintro ⟨others, hothers, hhttp⟩
  obtain rfl := Option.some.inj (hsegments.symm.trans hothers)
  rw [hplain] at hhttp
  exact Bool.false_ne_true hhttp

theorem canonicalOnce_of_plain
    (hplain : ¬ EncodesUrl scope supplied) : CanonicalOnce scope supplied result := by
  obtain ⟨_, -, hcreated⟩ := canonicalLocalReference_eq_ok h
  obtain ⟨hfixed, segments, hsegments, hne, -, hresult⟩ := canonicalCreatedId_fixed hcreated
  exact ⟨segments, (localSegments_identity h hplain).trans hsegments, hne, hresult, hfixed⟩

theorem not_canonicalOnce
    (hreads : EncodesUrl scope supplied) : ¬ CanonicalOnce scope supplied result := by
  rintro ⟨segments, hsegments, -, hresult, -⟩
  obtain ⟨others, hothers, hhttp⟩ := hreads
  obtain rfl := Option.some.inj (hsegments.symm.trans hothers)
  obtain ⟨others, hothers, hcreated⟩ := canonicalLocalReference_eq_ok h
  obtain rfl := Option.some.inj (hsegments.symm.trans hothers)
  obtain ⟨path, hpath, -, hscope, -⟩ := canonicalCreatedId_eq_ok hcreated
  apply href_append_ne scope (encodedPath segments)
  calc scope.href.toList ++ encodedPath segments = result := hresult.symm
    _ = scope.href.toList ++ path := hscope
    _ = encodedPath segments := (stripScope_http hhttp hpath).symm

theorem identity_eq_iff {other otherResult : List Char} (hplain : ¬ EncodesUrl scope supplied)
    (hother : canonicalLocalReference scope other = .ok otherResult)
    (hotherPlain : ¬ EncodesUrl scope other) :
    result = otherResult ↔ localSegments scope supplied = localSegments scope other := by
  constructor
  · rintro rfl
    rw [localSegments_identity h hplain, localSegments_identity hother hotherPlain]
  · intro hsame
    obtain ⟨segments, hsegments, -, hresult, -⟩ := canonicalOnce_of_plain h hplain
    obtain ⟨others, hothers, -, hotherResult, -⟩ := canonicalOnce_of_plain hother hotherPlain
    rw [hsegments, hothers] at hsame
    rw [hresult, hotherResult, Option.some.inj hsame]

end

/-- The decoded local segments of a reference start as an absolute URL does: with `http:` or
`https:`, and an empty one behind it. -/
def ReadsAsUrl (scope : HttpScope) (supplied : List Char) : Prop :=
  ∃ name rest, localSegments scope supplied = some (name :: [] :: rest) ∧
    (name.map Char.toLower = ['h', 't', 't', 'p', ':'] ∨
      name.map Char.toLower = ['h', 't', 't', 'p', 's', ':'])

theorem readsAsUrl_of_encodes (hencodes : EncodesUrl scope supplied) :
    ReadsAsUrl scope supplied := by
  obtain ⟨segments, hsegments, hhttp⟩ := hencodes
  obtain ⟨name, rest, hsplit, hname⟩ := splitOn_http hhttp
  have hplain : '%' ∉ name := by
    intro hmem
    have hmapped : '%' ∈ name.map Char.toLower := List.mem_map.mpr ⟨'%', hmem, rfl⟩
    obtain hname | hname := hname <;> rw [hname] at hmapped <;> exact absurd hmapped (by decide)
  rw [splitOn_encodedPath (localSegments_ne_nil hsegments)] at hsplit
  obtain ⟨first, tail, rfl, rfl, htail⟩ := List.map_eq_cons_iff.mp hsplit
  obtain ⟨second, others, rfl, hsecond, -⟩ := List.map_eq_cons_iff.mp htail
  have hempty : second = [] :=
    encodeSegment_injective (hsecond : encodeSegment second = encodeSegment [])
  rw [hempty] at hsegments
  rw [encodeSegment_eq_self hplain] at hname
  exact ⟨first, others, hsegments, hname⟩

theorem encodesUrl_iff (h : canonicalLocalReference scope supplied = .ok result) :
    EncodesUrl scope supplied ↔ ReadsAsUrl scope supplied := by
  constructor
  · exact readsAsUrl_of_encodes
  · rintro ⟨name, rest, hsegments, -⟩
    by_contra hplain
    obtain ⟨segments, hothers, hne, -⟩ := canonicalOnce_of_plain h hplain
    obtain rfl := Option.some.inj (hsegments.symm.trans hothers)
    exact hne [] (by simp) rfl

/-- A reference is canonicalized once exactly when its decoded local path does not read as an
absolute URL; and exactly then its identity is shared, among such references, by those with the
same decoded segments. -/
theorem canonicalLocalReference_once (h : canonicalLocalReference scope supplied = .ok result) :
    (CanonicalOnce scope supplied result ↔ ¬ ReadsAsUrl scope supplied) ∧
    ((∀ other otherResult, canonicalLocalReference scope other = .ok otherResult →
        ¬ ReadsAsUrl scope other →
        (result = otherResult ↔ localSegments scope supplied = localSegments scope other)) ↔
      ¬ ReadsAsUrl scope supplied) := by
  rw [← encodesUrl_iff h]
  refine ⟨⟨fun honce hreads ↦ not_canonicalOnce h hreads honce, canonicalOnce_of_plain h⟩, ?_, ?_⟩
  · rintro hsame ⟨segments, hsegments, hhttp⟩
    obtain ⟨_, -, hcreated⟩ := canonicalLocalReference_eq_ok h
    obtain ⟨hfixed, -⟩ := canonicalCreatedId_fixed hcreated
    have hidentity := not_encodesUrl_identity h
    have hequal := (hsame result result hfixed ((encodesUrl_iff hfixed).not.mp hidentity)).mp rfl
    exact hidentity ⟨segments, hequal ▸ hsegments, hhttp⟩
  · intro hplain other otherResult hother hotherPlain
    rw [← encodesUrl_iff hother] at hotherPlain
    exact identity_eq_iff h hplain hother hotherPlain

end Identity

section Sample

/-- The Scope `https://example.test/root/`. -/
def sampleHttpScope : HttpScope :=
  { scheme := ['h', 't', 't', 'p', 's'], scheme_chars := rfl, scheme_head := rfl
    authority := "example.test".toList, directories := ["root".toList]
    foreign := fun _ _ ↦ none, http := .inr rfl }

def nestedReference : List Char :=
  "https://example.test/root/https://example.test/root/names/a".toList

def namedIdentity : List Char := "https://example.test/root/names/a".toList

theorem canonicalLocalReference_named :
    canonicalLocalReference sampleHttpScope namedIdentity = .ok namedIdentity := by
  decide +kernel

theorem canonicalLocalReference_nested :
    canonicalLocalReference sampleHttpScope nestedReference = .ok namedIdentity := by
  decide +kernel

theorem localSegments_nested : localSegments sampleHttpScope nestedReference =
      some (["https:", "", "example.test", "root", "names", "a"].map String.toList) := by
  decide +kernel

theorem localSegments_named :
    localSegments sampleHttpScope namedIdentity = some (["names", "a"].map String.toList) := by
  decide +kernel

/-- An identity below the sample Scope is canonicalized once. -/
theorem canonicalLocalReference_once_named :
    CanonicalOnce sampleHttpScope namedIdentity namedIdentity := by
  apply (canonicalLocalReference_once canonicalLocalReference_named).1.mpr
  rintro ⟨name, rest, hsegments, -⟩
  rw [localSegments_named] at hsegments
  cases hsegments

/-- A reference that repeats the Scope has the identity of the inner one, without the segments
supplied in front of it and with an empty segment among them. -/
theorem nestedReference_not_once :
    ∃ scope supplied result, canonicalLocalReference scope supplied = .ok result ∧
      ¬ CanonicalOnce scope supplied result := by
  refine ⟨sampleHttpScope, nestedReference, namedIdentity, canonicalLocalReference_nested, ?_⟩
  rintro ⟨segments, hsegments, hne, -⟩
  obtain rfl := Option.some.inj (localSegments_nested.symm.trans hsegments)
  exact hne [] (by decide) rfl

end Sample

end Bdp.Retained
