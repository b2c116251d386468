import Mathlib

/-!
# Canonical URL paths

Paths of one or more canonical segments, and their resolution against a base URL whose path ends in
a slash. A canonical segment is nonempty, names no dot segment, and is written exactly as the
encoder writes the text that it decodes to. A path whose first segment starts like an absolute URL
is not resolved below the base: its own scheme is read first.
-/

namespace Bdp.UrlPath

open List (append_assoc length_cons map_cons sum_cons)

/-- Characters that a canonical path segment writes literally. -/
def isLiteral (letter : Char) : Bool :=
  letter.isAlphanum ||
    ['.', '_', '~', '!', '$', '&', Char.ofNat 39, '(', ')', '*', '+', ',', ';', '=', ':', '@',
      '-'].contains letter

section Escapes

def hexDigit (letter : Char) : Option ℕ :=
  if letter.isDigit then some (letter.toNat - 48)
  else if 65 ≤ letter.toNat ∧ letter.toNat ≤ 70 then some (letter.toNat - 55)
  else if 97 ≤ letter.toNat ∧ letter.toNat ≤ 102 then some (letter.toNat - 87)
  else none

/-- The byte of a percent escape, and what follows it. -/
def escapedByte : List Char → Option (ℕ × List Char)
  | '%' :: high :: low :: rest => do
    let high ← hexDigit high
    let low ← hexDigit low
    pure (16 * high + low, rest)
  | _ => none

/-- An escaped continuation byte added to the bits read so far. -/
def continuation (bits : ℕ) (text : List Char) : Option (ℕ × List Char) := do
  let (byte, rest) ← escapedByte text
  if 128 ≤ byte ∧ byte < 192 then pure (64 * bits + (byte - 128), rest) else none

/-- The character that a run of escapes encodes in UTF-8, in its shortest form. -/
def decodeEscape (text : List Char) : Option (Char × List Char) := do
  let (lead, rest) ← escapedByte text
  if lead < 128 then pure (Char.ofNat lead, rest)
  else if 194 ≤ lead ∧ lead < 224 then
    let (code, rest) ← continuation (lead - 192) rest
    pure (Char.ofNat code, rest)
  else if 224 ≤ lead ∧ lead < 240 then
    let (bits, rest) ← continuation (lead - 224) rest
    let (code, rest) ← continuation bits rest
    if 2048 ≤ code ∧ ¬ (55296 ≤ code ∧ code < 57344) then pure (Char.ofNat code, rest) else none
  else if 240 ≤ lead ∧ lead < 245 then
    let (bits, rest) ← continuation (lead - 240) rest
    let (bits, rest) ← continuation bits rest
    let (code, rest) ← continuation bits rest
    if 65536 ≤ code ∧ code < 1114112 then pure (Char.ofNat code, rest) else none
  else none

/-- Decode the escapes of a text of at most `fuel` characters. -/
def decodeComponent : ℕ → List Char → Option (List Char)
  | _, [] => some []
  | 0, _ :: _ => none
  | fuel + 1, letter :: rest =>
    if letter = '%' then do
      let (decoded, rest) ← decodeEscape (letter :: rest)
      let following ← decodeComponent fuel rest
      pure (decoded :: following)
    else (decodeComponent fuel rest).map fun following ↦ letter :: following

def upperHex (value : ℕ) : Char := (Nat.digitChar value).toUpper

def encodeByte (byte : UInt8) : List Char :=
  ['%', upperHex (byte.toNat / 16), upperHex (byte.toNat % 16)]

/-- Literal characters stay, and every other one becomes the escapes of its UTF-8 bytes. -/
def encodeSegment (text : List Char) : List Char :=
  text.flatMap fun letter ↦
    if isLiteral letter then [letter] else (String.utf8EncodeChar letter).flatMap encodeByte

end Escapes

def isControl (letter : Char) : Bool := letter.toNat ≤ 31 || letter.toNat == 127

def canonicalSegment (segment : List Char) : Bool :=
  match decodeComponent segment.length segment with
  | none => false
  | some decoded =>
    segment != [] && decoded != ['.'] && decoded != ['.', '.'] && !decoded.contains '/' &&
      !decoded.contains '\\' && !decoded.any isControl && encodeSegment decoded == segment

def canonicalPath (path : String) : Bool := (path.toList.splitOn '/').all canonicalSegment

variable {text : List Char}

section Paths

variable {letter : Char}

theorem not_mem_encodeSegment (hliteral : isLiteral letter = false)
    (hescape : letter ≠ '%') (hdigits : ∀ value < 16, upperHex value ≠ letter) (text : List Char) :
    letter ∉ encodeSegment text := by
  intro hmem
  obtain ⟨other, -, hmem⟩ := List.mem_flatMap.mp hmem
  split at hmem
  next hother =>
    rw [List.mem_singleton.mp hmem, hother] at hliteral
    cases hliteral
  next =>
    obtain ⟨byte, -, hmem⟩ := List.mem_flatMap.mp hmem
    have hbyte := byte.toNat_lt
    simp only [encodeByte, List.mem_cons, List.not_mem_nil, or_false] at hmem
    obtain rfl | rfl | rfl := hmem
    · exact hescape rfl
    · exact hdigits _ (by omega) rfl
    · exact hdigits _ (by omega) rfl

/-- Every letter of a text but the separator is in one of its parts. -/
theorem exists_mem_splitOn {separator : Char} (hne : letter ≠ separator)
    (hmem : letter ∈ text) : ∃ part ∈ text.splitOn separator, letter ∈ part := by
  induction text with
  | nil => cases hmem
  | cons first text ih =>
    obtain ⟨head, tail, hsplit⟩ := List.exists_cons_of_ne_nil (List.splitOn_ne_nil separator text)
    rw [List.splitOn_cons_eq_if_modifyHead, hsplit]
    rw [hsplit] at ih
    obtain rfl | hmem := List.mem_cons.mp hmem
    · rw [if_neg (by simpa using hne)]
      exact ⟨_, List.mem_cons_self, List.mem_cons_self⟩
    · obtain ⟨part, hpart, hletter⟩ := ih hmem
      split
      · exact ⟨part, List.mem_cons_of_mem _ hpart, hletter⟩
      · obtain rfl | hpart := List.mem_cons.mp hpart
        · exact ⟨_, List.mem_cons_self, List.mem_cons_of_mem _ hletter⟩
        · exact ⟨part, List.mem_cons_of_mem _ hpart, hletter⟩

/-- A canonical path has literals, escapes and slashes only. -/
theorem not_mem_of_canonicalPath {path : String} (h : canonicalPath path = true)
    (hliteral : isLiteral letter = false) (hescape : letter ≠ '%') (hslash : letter ≠ '/')
    (hdigits : ∀ value < 16, upperHex value ≠ letter) : letter ∉ path.toList := by
  intro hmem
  obtain ⟨segment, hsegment, hletter⟩ := exists_mem_splitOn hslash hmem
  have hcanonical := List.all_eq_true.mp h segment hsegment
  unfold canonicalSegment at hcanonical
  split at hcanonical
  · cases hcanonical
  next decoded _ =>
    rw [Bool.and_eq_true, beq_iff_eq] at hcanonical
    rw [← hcanonical.2] at hletter
    exact not_mem_encodeSegment hliteral hescape hdigits decoded hletter

end Paths

variable {name rest : List Char}

section Schemes

def isSchemeChar (letter : Char) : Bool :=
  letter.isAlphanum || ['+', '.', '-'].contains letter

/-- The scheme that a text starts with, and what follows its colon. -/
def splitScheme (text : List Char) : Option (List Char × List Char) :=
  match text with
  | [] => none
  | letter :: _ =>
    if letter.isAlpha then
      match text.dropWhile isSchemeChar with
      | ':' :: rest => some (text.takeWhile isSchemeChar, rest)
      | _ => none
    else none

def hasScheme (text : String) : Bool := (splitScheme text.toList).isSome

theorem splitScheme_eq_some (h : splitScheme text = some (name, rest)) :
    text = name ++ ':' :: rest ∧ ∀ letter ∈ name, isSchemeChar letter = true := by
  unfold splitScheme at h
  cases text with
  | nil => cases h
  | cons letter tail =>
    simp only at h
    split at h
    · split at h
      · next following hdrop =>
        obtain ⟨rfl, rfl⟩ := Prod.mk.inj (Option.some.inj h)
        refine ⟨?_, fun _ ↦ List.mem_takeWhile_imp⟩
        rw [← hdrop, List.takeWhile_append_dropWhile]
      · cases h
    · cases h

/-- Two texts agree up to their first colon when they are equal. -/
theorem colon_split_unique {left right before after : List Char} (hleft : ':' ∉ left)
    (hright : ':' ∉ right) (h : left ++ ':' :: before = right ++ ':' :: after) : left = right := by
  have hall {text : List Char} (htext : ':' ∉ text) (rest : List Char) :
      (text ++ ':' :: rest).takeWhile (fun letter ↦ letter != ':') = text := by
    rw [List.takeWhile_append_of_pos]
    · simp
    · intro letter hletter
      exact bne_iff_ne.mpr fun heq ↦ htext (heq ▸ hletter)
  rw [← hall hleft before, h, hall hright after]

theorem toLower_ne_colon {letter : Char} (h : isSchemeChar letter = true) :
    letter.toLower ≠ ':' := by
  intro hcolon
  unfold Char.toLower at hcolon
  split at hcolon
  · next hupper =>
    have hval : letter.val + ('a'.val - 'A'.val) = ':'.val := congrArg Char.val hcolon
    have hlow : (65 : UInt32) ≤ letter.val := hupper.1
    have hsum : letter.val = 26 := by
      calc letter.val = letter.val + ('a'.val - 'A'.val) - ('a'.val - 'A'.val) := by grind
        _ = 26 := by rw [hval]; rfl
    rw [hsum] at hlow
    exact absurd hlow (by decide)
  · rw [hcolon] at h
    revert h
    decide

end Schemes

/-- A base URL `scheme://authority/directory/…/`. -/
structure Scope where
  scheme : List Char
  scheme_chars : scheme.all isSchemeChar = true
  scheme_head : scheme.head?.any Char.isAlpha = true
  authority : List Char
  directories : List (List Char)
  /-- What the URL parser makes of the text behind another scheme. -/
  foreign : List Char → List Char → Option (List Char)

namespace Scope

variable (scope : Scope)

def origin : List Char := scope.scheme ++ "://".toList ++ scope.authority

/-- A path of directories, with a slash at both ends. -/
def directoryPath (directories : List (List Char)) : List Char :=
  '/' :: directories.flatMap fun directory ↦ directory ++ ['/']

def href : String := String.ofList (scope.origin ++ directoryPath scope.directories)

/-- Walk segments from a directory; the last one may be a file. -/
def walk : List (List Char) → List (List Char) → List Char
  | directories, [] => directoryPath directories
  | directories, [last] =>
    if last = ['.'] then directoryPath directories
    else if last = ['.', '.'] then directoryPath directories.dropLast
    else directoryPath directories ++ last
  | directories, segment :: segments =>
    if segment = ['.'] then walk directories segments
    else if segment = ['.', '.'] then walk directories.dropLast segments
    else walk (directories ++ [segment]) segments

/-- Resolve a canonical path. A scheme in front is read as one; the scheme of the base itself is
dropped, and the rest is resolved below the directory or below the root. A URL of another scheme
keeps its scheme. -/
def resolve (path : String) : Option String :=
  match splitScheme path.toList with
  | none => some (scope.href ++ path)
  | some (name, rest) =>
    if name.map Char.toLower = scope.scheme then
      match rest with
      | '/' :: absolute => some (String.ofList (scope.origin ++ walk [] (absolute.splitOn '/')))
      | _ => some (String.ofList (scope.origin ++ walk scope.directories (rest.splitOn '/')))
    else
      let name := name.map Char.toLower
      (scope.foreign name rest).map fun rest ↦ String.ofList (name ++ ':' :: rest)

/-- The part of a URL behind the base. -/
def localPath (uri : String) : Option String :=
  (uri.toList.dropPrefix? scope.href.toList).map String.ofList

/-- The local path of a URL of the base, when it is canonical. -/
def resourcePath (uri : String) : Option String := (scope.localPath uri).filter canonicalPath

variable {scope} {path uri : String}

theorem localPath_eq_some : scope.localPath uri = some path ↔ uri = scope.href ++ path := by
  unfold localPath
  rw [Option.map_eq_some_iff]
  constructor
  · rintro ⟨rest, hrest, rfl⟩
    obtain ⟨front, hsplit, hfront⟩ := List.dropPrefix?_eq_some_iff.mp hrest
    obtain rfl := eq_of_beq hfront
    calc uri = String.ofList uri.toList := String.ofList_toList.symm
      _ = String.ofList (scope.href.toList ++ rest) := by rw [hsplit]
      _ = scope.href ++ String.ofList rest := by rw [String.ofList_append, String.ofList_toList]
  · rintro rfl
    refine ⟨path.toList, List.dropPrefix?_eq_some_iff.mpr ⟨scope.href.toList, ?_, ?_⟩,
      String.ofList_toList⟩
    · exact String.toList_append
    · exact beq_self_eq_true _

@[simp]
theorem localPath_append (path : String) : scope.localPath (scope.href ++ path) = some path :=
  localPath_eq_some.mpr rfl

theorem resourcePath_eq_some :
    scope.resourcePath uri = some path ↔ uri = scope.href ++ path ∧ canonicalPath path = true := by
  rw [resourcePath, Option.filter_eq_some_iff, localPath_eq_some]

/-- A path that does not start with a scheme is resolved below the base as it stands. -/
theorem resolve_plain (h : hasScheme path = false) :
    scope.resolve path = some (scope.href ++ path) := by
  unfold hasScheme at h
  rw [Option.isSome_eq_false_iff, Option.isNone_iff_eq_none] at h
  rw [resolve, h]

/-- A URL of the base starts with a scheme. -/
theorem hasScheme_append (path : String) : hasScheme (scope.href ++ path) = true := by
  have hhead := scope.scheme_head
  have hchars := List.all_eq_true.mp scope.scheme_chars
  unfold hasScheme splitScheme
  rw [String.toList_append, href, String.toList_ofList, origin, append_assoc,
    append_assoc, append_assoc]
  cases hscheme : scope.scheme with
  | nil => simp [hscheme] at hhead
  | cons letter tail =>
    rw [hscheme] at hhead hchars
    have hdrop (rest : List Char) : ((letter :: tail) ++ ("://".toList ++ rest)).dropWhile
        isSchemeChar = ':' :: '/' :: '/' :: rest := by
      rw [List.dropWhile_append_of_pos hchars]
      rfl
    simp only [List.cons_append] at hdrop ⊢
    rw [if_pos (by simpa using hhead), hdrop]
    rfl

/-- Walking never lengthens a path by more than the text of its segments. -/
theorem length_walk (directories segments : List (List Char)) (h : segments ≠ []) :
    (walk directories segments).length + 1 ≤ (directoryPath directories).length +
        (segments.map fun segment ↦ segment.length + 1).sum := by
  have hdrop (directories : List (List Char)) :
      (directoryPath directories.dropLast).length ≤ (directoryPath directories).length := by
    unfold directoryPath
    simp only [length_cons, List.length_flatMap, add_le_add_iff_right]
    exact List.Sublist.sum_le_sum (directories.dropLast_sublist.map _) fun _ _ ↦ Nat.zero_le _
  have hpush (directories : List (List Char)) (segment : List Char) :
      (directoryPath (directories ++ [segment])).length =
        (directoryPath directories).length + (segment.length + 1) := by
    simp only [directoryPath, length_cons, List.flatMap_append, List.length_append,
      List.flatMap_cons, List.flatMap_nil, List.length_nil]
    omega
  induction directories, segments using walk.induct with
  | case1 directories => exact absurd rfl h
  | case2 directories => simp [walk]
  | case3 directories =>
    have := hdrop directories
    simp only [walk, map_cons, sum_cons, List.map_nil, List.sum_nil, length_cons]
    simp only [List.cons.injEq, reduceCtorEq, and_false, if_true, if_false]
    omega
  | case4 directories last hdot hdots =>
    simp only [walk, hdot, hdots, if_false, List.length_append, map_cons, sum_cons]
    omega
  | case5 directories segments hne ih =>
    have := ih hne
    rw [walk.eq_3 _ _ _ hne, if_pos rfl, map_cons, sum_cons]
    omega
  | case6 directories segments hne hdot ih =>
    have := ih hne
    have := hdrop directories
    rw [walk.eq_3 _ _ _ hne, if_neg hdot, if_pos rfl, map_cons, sum_cons]
    omega
  | case7 directories segment segments hne hdot hdots ih =>
    have := ih hne
    have := hpush directories segment
    rw [walk.eq_3 _ _ _ hne, if_neg hdot, if_neg hdots, map_cons, sum_cons]
    omega

theorem sum_length_splitOn (text : List Char) (letter : Char) :
    ((text.splitOn letter).map fun segment ↦ segment.length + 1).sum = text.length + 1 := by
  induction text with
  | nil => simp
  | cons first text ih =>
    rw [List.splitOn_cons_eq_if_modifyHead]
    split
    · rw [map_cons, sum_cons, ih, length_cons, List.length_nil]
      omega
    · obtain ⟨head, tail, hsplit⟩ := List.exists_cons_of_ne_nil (List.splitOn_ne_nil letter text)
      rw [hsplit, map_cons, sum_cons] at ih
      rw [hsplit, List.modifyHead_cons, map_cons, sum_cons, length_cons, length_cons]
      omega

/-- A walk over what stands behind a scheme is too short to name the whole path. -/
theorem origin_walk_ne {directories segments : List (List Char)}
    (htext : path.toList = name ++ ':' :: rest) (hne : segments ≠ [])
    (hdirectories : (directoryPath directories).length ≤ (directoryPath scope.directories).length)
    (hsum : (segments.map fun segment ↦ segment.length + 1).sum ≤ rest.length + 1) :
    String.ofList (scope.origin ++ walk directories segments) ≠ scope.href ++ path := by
  intro heq
  have hchars := congrArg String.toList heq
  rw [String.toList_append, href, String.toList_ofList, String.toList_ofList,
    append_assoc, List.append_cancel_left_eq] at hchars
  have hlength := congrArg List.length hchars
  have hwalk := length_walk directories segments hne
  rw [htext, List.length_append, List.length_append, length_cons] at hlength
  omega

/-- A URL of another scheme is not below the base. -/
theorem foreign_ne (hname : ∀ letter ∈ name, isSchemeChar letter = true)
    (hother : name.map Char.toLower ≠ scope.scheme) :
    String.ofList (name.map Char.toLower ++ ':' :: rest) ≠ scope.href ++ path := by
  intro heq
  have hchars := congrArg String.toList heq
  rw [String.toList_append, href, String.toList_ofList, String.toList_ofList, origin,
    append_assoc, append_assoc, append_assoc] at hchars
  refine hother (colon_split_unique ?_ ?_ hchars)
  · intro hmem
    obtain ⟨letter, hletter, hcolon⟩ := List.mem_map.mp hmem
    exact toLower_ne_colon (hname letter hletter) hcolon
  · intro hmem
    exact absurd (List.all_eq_true.mp scope.scheme_chars ':' hmem) (by decide)

/-- A path that starts with a scheme is not resolved to itself below the base. -/
theorem resolve_scheme_ne (hscheme : hasScheme path = true) :
    scope.resolve path ≠ some (scope.href ++ path) := by
  rw [hasScheme, Option.isSome_iff_exists] at hscheme
  obtain ⟨⟨name, rest⟩, hsplit⟩ := hscheme
  obtain ⟨htext, hname⟩ := splitScheme_eq_some hsplit
  intro h
  rw [resolve, hsplit] at h
  simp only at h
  split at h
  · split at h
    · next absolute =>
      refine origin_walk_ne htext (List.splitOn_ne_nil '/' absolute) ?_ ?_ (Option.some.inj h)
      · simp [directoryPath]
      · rw [sum_length_splitOn]
        simp
    · exact origin_walk_ne htext (List.splitOn_ne_nil '/' rest) le_rfl
        (sum_length_splitOn rest '/').le (Option.some.inj h)
  · next hother =>
    obtain ⟨rest', -, hu⟩ := Option.map_eq_some_iff.mp h
    exact foreign_ne hname hother hu

/-- A path is resolved to itself below the base exactly when no scheme is read in front of it. -/
theorem resolve_eq_append_iff :
    scope.resolve path = some (scope.href ++ path) ↔ hasScheme path = false := by
  constructor
  · intro h
    by_contra hscheme
    exact resolve_scheme_ne (Bool.not_eq_false _ ▸ hscheme) h
  · exact resolve_plain

end Scope

end Bdp.UrlPath
