import Bdp.Library.Base64Url

/-!
# References to http URLs

How a URL parser reads a reference against an http base: white space around it and line breaks in
it go, a scheme or two slashes introduce an authority, dot segments are resolved, and what may not
stand in a path or a query is percent-encoded. What an authority denotes is left to a parameter. A
path that was read once is read again as it stands, unless two slashes make its first segment an
authority.
-/

namespace Bdp.SpecialUrl

open CodeUnits
open List (mem_cons_self forall_mem_cons flatMap_cons mem_cons mem_cons_of_mem splitOnP_ne_nil
  append_nil cons_append map_cons sum_cons length_cons)

/-- Slashes of an http URL. -/
def isSlash (unit : ℕ) : Bool := unit == 47 || unit == 92

/-- The units that the percent-encode set of paths leaves. -/
def isPathUnit (unit : ℕ) : Bool :=
  decide (0x20 < unit) && decide (unit < 0x7f) &&
    !([34, 35, 60, 62, 63, 94, 96, 123, 125].contains unit)

/-- The units that the percent-encode set of special queries leaves. -/
def isQueryUnit (unit : ℕ) : Bool :=
  decide (0x20 < unit) && decide (unit < 0x7f) && !([34, 35, 39, 60, 62].contains unit)

def upperHex (value : ℕ) : ℕ := if value < 10 then 48 + value else 55 + value

/-- UTF-8 percent-encoding: the bytes that a set keeps stay. -/
def percentEncode (keeps : ℕ → Bool) (text : Text) : Text :=
  (utf8Bytes text).flatMap fun byte ↦
    if keeps byte then [byte] else [37, upperHex (byte / 16 % 16), upperHex (byte % 16)]

def lower (unit : ℕ) : ℕ := if 65 ≤ unit ∧ unit ≤ 90 then unit + 32 else unit

def isSingleDot (segment : Text) : Bool :=
  segment == [46] || segment.map lower == [37, 50, 101]

def isDoubleDot (segment : Text) : Bool :=
  segment == [46, 46] || segment.map lower == [46, 37, 50, 101] ||
    segment.map lower == [37, 50, 101, 46] || segment.map lower == [37, 50, 101, 37, 50, 101]

/-- A piece of a path, followed by a slash or not. -/
def addPiece (more : Bool) (path : List Text) (piece : Text) : List Text :=
  let buffer := percentEncode isPathUnit piece
  if isDoubleDot buffer then if more then path.dropLast else path.dropLast ++ [[]]
  else if isSingleDot buffer then if more then path else path ++ [[]]
  else path ++ [buffer]

/-- The segments that the pieces of a path add to some segments. -/
def readPieces (path : List Text) : List Text → List Text
  | [] => path
  | [piece] => addPiece false path piece
  | piece :: next :: pieces => readPieces (addPiece true path piece) (next :: pieces)

structure Url where
  secure : Bool
  origin : Text
  path : List Text
  query : Option Text
  deriving DecidableEq

namespace Url

def pathname (url : Url) : Text := url.path.flatMap fun segment ↦ 47 :: segment

/-- The query with its question mark, where there is one. -/
def search (url : Url) : Text :=
  match url.query with
  | none => []
  | some [] => []
  | some (unit :: rest) => 63 :: unit :: rest

def href (url : Url) : Text :=
  url.origin ++ url.pathname ++
    match url.query with
    | none => []
    | some query => 63 :: query

end Url

/-- The scheme `http` or `https` with the two slashes, and what follows. -/
def httpScheme (text : Text) : Option (Bool × Text) :=
  if (text.take 8).map lower = ascii ['h', 't', 't', 'p', 's', ':', '/', '/'] then
    some (true, text.drop 8)
  else if (text.take 7).map lower = ascii ['h', 't', 't', 'p', ':', '/', '/'] then
    some (false, text.drop 7)
  else none

/-- Control characters and spaces around a reference are removed, and line breaks and tabs in it. -/
def trimmed (input : Text) : Text :=
  ((input.dropWhile fun unit ↦ decide (unit ≤ 0x20)).rdropWhile fun unit ↦
    decide (unit ≤ 0x20)).filter fun unit ↦ !([9, 10, 13].contains unit)

def pathPart (text : Text) : Text := text.takeWhile fun unit ↦ unit != 63

/-- The encoded query of a text, where there is a question mark. -/
def queryPart (text : Text) : Option Text :=
  match text.dropWhile fun unit ↦ unit != 63 with
  | [] => none
  | _ :: query => some (percentEncode isQueryUnit query)

/-- The path from the root: its first slash may be missing. -/
def rootedPath (text : Text) : List Text :=
  match pathPart text with
  | [] => readPieces [] [[]]
  | unit :: rest =>
    if isSlash unit then readPieces [] (rest.splitOnP isSlash)
    else readPieces [] ((unit :: rest).splitOnP isSlash)

section Parsing

variable (authorityOrigin : Bool → Text → Option Text)

/-- A reference from the slashes before its authority. The parameter gives the origin of an
authority under `http` or `https`, unless it is invalid. -/
def parseAuthority (secure : Bool) (text : Text) : Option Url :=
  let named := text.dropWhile isSlash
  let rest := named.dropWhile fun unit ↦ !isSlash unit && unit != 63
  (authorityOrigin secure (named.takeWhile fun unit ↦ !isSlash unit && unit != 63)).map fun origin ↦
    { secure, origin, path := rootedPath rest, query := queryPart rest }

/-- A reference with the scheme `http` or `https` and two slashes, or without a scheme, read against
an http base. -/
def parse (base : Url) (input : Text) : Option Url :=
  let text := (trimmed input).takeWhile fun unit ↦ unit != 35
  match httpScheme text with
  | some (secure, rest) => parseAuthority authorityOrigin secure rest
  | none =>
    match text with
    | [] => some base
    | unit :: rest =>
      if isSlash unit then
        if rest.head?.any isSlash then parseAuthority authorityOrigin base.secure text
        else some { base with path := rootedPath text, query := queryPart text }
      else if unit = 63 then some { base with query := queryPart text }
      else
        some { base with
          path := readPieces base.path.dropLast ((pathPart text).splitOnP isSlash)
          query := queryPart text }

end Parsing

variable {unit : ℕ}

section Encoding

/-- A set that keeps printable ASCII only, and the escapes themselves. -/
structure KeepsEscapes (keeps : ℕ → Bool) : Prop where
  printable : ∀ unit, keeps unit = true → 0x20 < unit ∧ unit < 0x7f
  percent : keeps 37 = true
  hex : ∀ value < 16, keeps (upperHex value) = true

theorem keepsEscapes_path : KeepsEscapes isPathUnit where
  printable unit h := by
    simp only [isPathUnit, Bool.and_eq_true, decide_eq_true_eq] at h
    exact h.1
  percent := by decide
  hex := by decide

theorem keepsEscapes_query : KeepsEscapes isQueryUnit where
  printable unit h := by
    simp only [isQueryUnit, Bool.and_eq_true, decide_eq_true_eq] at h
    exact h.1
  percent := by decide
  hex := by decide

variable {keeps : ℕ → Bool}
variable {text : Text}

theorem utf8Bytes_of_ascii (h : ∀ unit ∈ text, unit < 0x80) : utf8Bytes text = text := by
  have hunit {unit : ℕ} (h : unit < 0x80) :
      unitUtf8 (if isHigh unit = true ∨ isLow unit = true then 0xfffd else unit) = [unit] := by
    have hsurrogate : ¬ (isHigh unit = true ∨ isLow unit = true) := by
      simp only [isHigh, isLow, decide_eq_true_eq]
      omega
    rw [if_neg hsurrogate, unitUtf8, if_pos h]
  fun_induction utf8Bytes text with
  | case1 => rfl
  | case2 unit => exact hunit (h unit mem_cons_self)
  | case3 unit next rest hpair ih =>
    have hlow := h unit mem_cons_self
    have hhigh : 0xd800 ≤ unit ∧ unit ≤ 0xdbff := of_decide_eq_true hpair.1
    omega
  | case4 unit next rest hpair ih =>
    obtain ⟨hfirst, hrest⟩ := forall_mem_cons.mp h
    rw [hunit hfirst, ih hrest]
    rfl

/-- A text whose units are all kept is encoded as it stands. -/
theorem percentEncode_eq_self (hkeeps : KeepsEscapes keeps)
    (h : ∀ unit ∈ text, keeps unit = true) : percentEncode keeps text = text := by
  have hascii : ∀ unit ∈ text, unit < 0x80 := by
    intro unit hunit
    have := hkeeps.printable unit (h unit hunit)
    omega
  rw [percentEncode, utf8Bytes_of_ascii hascii]
  clear hascii
  induction text with
  | nil => rfl
  | cons unit rest ih =>
    obtain ⟨hunit, hrest⟩ := forall_mem_cons.mp h
    rw [flatMap_cons, if_pos hunit, ih hrest]
    rfl

/-- The bytes of units are bytes of one of them. -/
theorem mem_utf8Bytes {byte : ℕ} (h : byte ∈ utf8Bytes text) : byte ∈ text ∨ 0x80 ≤ byte := by
  have hunit {unit byte : ℕ}
      (h : byte ∈ unitUtf8 (if isHigh unit = true ∨ isLow unit = true then 0xfffd else unit)) :
      byte = unit ∨ 0x80 ≤ byte := by
    unfold unitUtf8 at h
    split_ifs at h <;> simp at h <;> omega
  fun_induction utf8Bytes text with
  | case1 => cases h
  | case2 unit =>
    refine (hunit h).imp_left ?_
    rintro rfl
    exact mem_cons_self
  | case3 unit next rest hpair ih =>
    rcases List.mem_append.mp h with h | h
    · right
      simp only [pairUtf8, mem_cons, List.not_mem_nil, or_false] at h
      omega
    · exact (ih h).imp_left fun hmem ↦ mem_cons_of_mem _ (mem_cons_of_mem _ hmem)
  | case4 unit next rest hpair ih =>
    rcases List.mem_append.mp h with h | h
    · refine (hunit h).imp_left ?_
      rintro rfl
      exact mem_cons_self
    · exact (ih h).imp_left fun hmem ↦ mem_cons_of_mem _ hmem

/-- What comes out of the encoding is kept, and is a unit of the text or part of an escape. -/
theorem mem_percentEncode (hkeeps : KeepsEscapes keeps) (h : unit ∈ percentEncode keeps text) :
    keeps unit = true ∧ (unit ∈ text ∨ unit = 37 ∨ ∃ value < 16, unit = upperHex value) := by
  obtain ⟨byte, hbyte, hunit⟩ := List.mem_flatMap.mp h
  split at hunit
  · next hkept =>
    obtain rfl := List.mem_singleton.mp hunit
    refine ⟨hkept, (mem_utf8Bytes hbyte).imp_right fun hlarge ↦ ?_⟩
    have := hkeeps.printable unit hkept
    omega
  · have hsmall {value : ℕ} (hvalue : value < 16) (heq : unit = upperHex value) :
        keeps unit = true ∧ (unit ∈ text ∨ unit = 37 ∨ ∃ value < 16, unit = upperHex value) := by
      exact ⟨heq ▸ hkeeps.hex value hvalue, .inr (.inr ⟨value, hvalue, heq⟩)⟩
    simp only [mem_cons, List.not_mem_nil, or_false] at hunit
    rcases hunit with rfl | hhigh | hlow
    · exact ⟨hkeeps.percent, .inr (.inl rfl)⟩
    · exact hsmall (Nat.mod_lt _ (by decide)) hhigh
    · exact hsmall (Nat.mod_lt _ (by decide)) hlow

end Encoding

section Paths

/-- A segment that the parser leaves as it stands. -/
structure CleanSegment (segment : Text) : Prop where
  units : ∀ unit ∈ segment, isPathUnit unit = true ∧ isSlash unit = false
  singleDot : isSingleDot segment = false
  doubleDot : isDoubleDot segment = false

theorem cleanSegment_nil : CleanSegment [] := ⟨by simp, by decide, by decide⟩

variable {piece : Text}

theorem mem_splitOnP {separates : ℕ → Bool} {text : Text} (h : piece ∈ text.splitOnP separates) :
    ∀ unit ∈ piece, unit ∈ text ∧ separates unit = false := by
  induction text generalizing piece with
  | nil =>
    obtain rfl : piece = [] := by simpa [List.splitOnP_nil] using h
    simp
  | cons first rest ih =>
    rw [List.splitOnP_cons_eq_if_modifyHead] at h
    split at h
    · rcases mem_cons.mp h with rfl | h
      · simp
      · intro unit hunit
        exact (ih h unit hunit).imp_left (mem_cons_of_mem _)
    · next hfirst =>
      obtain ⟨head, tail, hsplit⟩ := List.exists_cons_of_ne_nil (splitOnP_ne_nil separates rest)
      rw [hsplit] at h ih
      rcases mem_cons.mp h with rfl | h
      · refine forall_mem_cons.mpr ⟨⟨mem_cons_self, by simpa using hfirst⟩, ?_⟩
        intro unit hunit
        exact (ih mem_cons_self unit hunit).imp_left (mem_cons_of_mem _)
      · intro unit hunit
        exact (ih (mem_cons_of_mem _ h) unit hunit).imp_left (mem_cons_of_mem _)

theorem isSlash_upperHex {value : ℕ} (h : value < 16) : isSlash (upperHex value) = false := by
  revert value
  decide

variable {path : List Text}

/-- A piece adds clean segments only. -/
theorem addPiece_clean {more : Bool} (hpath : ∀ segment ∈ path, CleanSegment segment)
    (hpiece : ∀ unit ∈ piece, isSlash unit = false) :
    ∀ segment ∈ addPiece more path piece, CleanSegment segment := by
  have hdrop : ∀ segment ∈ path.dropLast, CleanSegment segment :=
    fun segment hsegment ↦ hpath segment (List.dropLast_subset _ hsegment)
  unfold addPiece
  by_cases hdouble : isDoubleDot (percentEncode isPathUnit piece) = true
  · rw [if_pos hdouble]
    cases more
    · exact List.forall_mem_append.mpr ⟨hdrop, by simpa using cleanSegment_nil⟩
    · exact hdrop
  rw [if_neg hdouble]
  by_cases hsingle : isSingleDot (percentEncode isPathUnit piece) = true
  · rw [if_pos hsingle]
    cases more
    · exact List.forall_mem_append.mpr ⟨hpath, by simpa using cleanSegment_nil⟩
    · exact hpath
  rw [if_neg hsingle]
  refine List.forall_mem_append.mpr ⟨hpath, ?_⟩
  rw [List.forall_mem_singleton]
  refine ⟨fun unit hunit ↦ ?_, Bool.eq_false_iff.mpr hsingle, Bool.eq_false_iff.mpr hdouble⟩
  obtain ⟨hkept, hunit | rfl | ⟨value, hvalue, rfl⟩⟩ := mem_percentEncode keepsEscapes_path hunit
  · exact ⟨hkept, hpiece unit hunit⟩
  · exact ⟨hkept, by decide⟩
  · exact ⟨hkept, isSlash_upperHex hvalue⟩

theorem addPiece_ne_nil : addPiece false path piece ≠ [] := by
  simp only [addPiece, Bool.false_eq_true, if_false]
  split_ifs <;> simp

variable {pieces : List Text}

/-- The segments of a path are clean, and there is one. -/
theorem readPieces_clean (hpath : ∀ segment ∈ path, CleanSegment segment)
    (hpieces : ∀ piece ∈ pieces, ∀ unit ∈ piece, isSlash unit = false) :
    ∀ segment ∈ readPieces path pieces, CleanSegment segment := by
  fun_induction readPieces path pieces with
  | case1 path => exact hpath
  | case2 path piece => exact addPiece_clean hpath (hpieces piece mem_cons_self)
  | case3 path piece next pieces ih =>
    obtain ⟨hpiece, hrest⟩ := forall_mem_cons.mp hpieces
    exact ih (addPiece_clean hpath hpiece) hrest

theorem readPieces_ne_nil (h : pieces ≠ []) : readPieces path pieces ≠ [] := by
  fun_induction readPieces path pieces with
  | case1 path => exact absurd rfl h
  | case2 path piece => exact addPiece_ne_nil
  | case3 path piece next pieces ih => exact ih (by simp)

theorem percentEncode_clean {segment : Text} (h : CleanSegment segment) :
    percentEncode isPathUnit segment = segment :=
  percentEncode_eq_self keepsEscapes_path fun unit hunit ↦ (h.units unit hunit).1

/-- Clean segments are read as they stand. -/
theorem readPieces_eq_append
    (h : ∀ piece ∈ pieces, CleanSegment piece) : readPieces path pieces = path ++ pieces := by
  have hadd {more : Bool} {path : List Text} {piece : Text} (hpiece : CleanSegment piece) :
      addPiece more path piece = path ++ [piece] := by
    unfold addPiece
    rw [percentEncode_clean hpiece]
    simp [hpiece.doubleDot, hpiece.singleDot]
  fun_induction readPieces path pieces with
  | case1 path => exact (append_nil path).symm
  | case2 path piece => exact hadd (h piece mem_cons_self)
  | case3 path piece next pieces ih =>
    obtain ⟨hpiece, hrest⟩ := forall_mem_cons.mp h
    rw [ih hrest, hadd hpiece, List.append_assoc]
    rfl

/-- The text of clean segments splits into these segments. -/
theorem splitOnP_segments {segment : Text} {segments : List Text}
    (h : ∀ piece ∈ segment :: segments, ∀ unit ∈ piece, isSlash unit = false) :
    (segment ++ segments.flatMap fun segment ↦ 47 :: segment).splitOnP isSlash =
      segment :: segments := by
  induction segments generalizing segment with
  | nil =>
    rw [List.flatMap_nil, append_nil]
    exact List.splitOnP_eq_singleton (h segment mem_cons_self)
  | cons next segments ih =>
    obtain ⟨hsegment, hrest⟩ := forall_mem_cons.mp h
    rw [flatMap_cons, cons_append,
      List.splitOnP_append_cons_of_forall_mem hsegment 47 (by decide), ih hrest]

end Paths

section Parts

variable {base : Url}

/-- A query that the parser leaves as it stands. -/
def CleanQuery (query : Text) : Prop := ∀ unit ∈ query, isQueryUnit unit = true

/-- A URL as the parser makes them. -/
structure CleanUrl (url : Url) : Prop where
  path : ∀ segment ∈ url.path, CleanSegment segment
  path_ne_nil : url.path ≠ []
  query : ∀ query ∈ url.query, CleanQuery query

theorem rootedPath_clean (text : Text) :
    (∀ segment ∈ rootedPath text, CleanSegment segment) ∧ rootedPath text ≠ [] := by
  have hread {pieces : List Text}
      (hpieces : ∀ piece ∈ pieces, ∀ unit ∈ piece, isSlash unit = false) (hne : pieces ≠ []) :
      (∀ segment ∈ readPieces [] pieces, CleanSegment segment) ∧ readPieces [] pieces ≠ [] :=
    ⟨readPieces_clean (by simp) hpieces, readPieces_ne_nil hne⟩
  have hsplit (text : Text) : ∀ piece ∈ text.splitOnP isSlash, ∀ unit ∈ piece,
      isSlash unit = false :=
    fun piece hpiece unit hunit ↦ (mem_splitOnP hpiece unit hunit).2
  unfold rootedPath
  split
  · exact hread (by simp) (by simp)
  · split
    · exact hread (hsplit _) (splitOnP_ne_nil _ _)
    · exact hread (hsplit _) (splitOnP_ne_nil _ _)

theorem queryPart_clean (text : Text) : ∀ query ∈ queryPart text, CleanQuery query := by
  intro query hquery
  unfold queryPart at hquery
  split at hquery
  · cases hquery
  · obtain rfl := Option.some.inj hquery
    exact fun unit hunit ↦ (mem_percentEncode keepsEscapes_query hunit).1

variable {authorityOrigin : Bool → Text → Option Text}

theorem parseAuthority_clean {secure : Bool} {text : Text} {url : Url}
    (h : parseAuthority authorityOrigin secure text = some url) : CleanUrl url := by
  obtain ⟨origin, -, rfl⟩ := Option.map_eq_some_iff.mp h
  exact ⟨(rootedPath_clean _).1, (rootedPath_clean _).2, queryPart_clean _⟩

/-- What the parser makes is clean. -/
theorem parse_clean {url : Url} {input : Text} (hbase : CleanUrl base)
    (h : parse authorityOrigin base input = some url) : CleanUrl url := by
  unfold parse at h
  dsimp only at h
  split at h
  · exact parseAuthority_clean h
  split at h
  · obtain rfl := Option.some.inj h
    exact hbase
  split_ifs at h
  · exact parseAuthority_clean h
  · obtain rfl := Option.some.inj h
    exact ⟨(rootedPath_clean _).1, (rootedPath_clean _).2, queryPart_clean _⟩
  · obtain rfl := Option.some.inj h
    exact ⟨hbase.path, hbase.path_ne_nil, queryPart_clean _⟩
  · obtain rfl := Option.some.inj h
    refine ⟨readPieces_clean ?_ ?_, readPieces_ne_nil (splitOnP_ne_nil _ _), queryPart_clean _⟩
    · exact fun segment hsegment ↦ hbase.path segment (List.dropLast_subset _ hsegment)
    · exact fun piece hpiece unit hunit ↦ (mem_splitOnP hpiece unit hunit).2

end Parts

section Again

variable {authorityOrigin : Bool → Text → Option Text} {base : Url}

/-- The text of the path and the query of a URL. -/
def Url.text (url : Url) : Text := url.pathname ++ url.search

theorem isPathUnit_ne (h : isPathUnit unit = true) : 0x20 < unit ∧ unit ≠ 35 ∧ unit ≠ 63 := by
  simp only [isPathUnit, Bool.and_eq_true, decide_eq_true_eq, Bool.not_eq_true',
    List.contains_eq_mem, decide_eq_false_iff_not, mem_cons, not_or] at h
  exact ⟨h.1.1, h.2.2.1, h.2.2.2.2.2.1⟩

theorem isQueryUnit_ne (h : isQueryUnit unit = true) : 0x20 < unit ∧ unit ≠ 35 := by
  simp only [isQueryUnit, Bool.and_eq_true, decide_eq_true_eq, Bool.not_eq_true',
    List.contains_eq_mem, decide_eq_false_iff_not, mem_cons, not_or] at h
  exact ⟨h.1.1, h.2.2.1⟩

variable {url : Url}

theorem CleanUrl.pathname_units (h : CleanUrl url) :
    ∀ unit ∈ url.pathname, isPathUnit unit = true := by
  intro unit hunit
  obtain ⟨segment, hsegment, hunit⟩ := List.mem_flatMap.mp hunit
  rcases mem_cons.mp hunit with rfl | hunit
  · decide
  · exact ((h.path segment hsegment).units unit hunit).1

/-- The search of a clean URL is empty, or a question mark and a clean query. -/
theorem CleanUrl.search_cases (h : CleanUrl url) :
    url.search = [] ∨ ∃ query, CleanQuery query ∧ query ≠ [] ∧ url.query = some query ∧
      url.search = 63 :: query := by
  unfold Url.search
  cases hquery : url.query with
  | none => exact .inl rfl
  | some query =>
    cases query with
    | nil => exact .inl rfl
    | cons unit rest =>
      exact .inr ⟨unit :: rest, h.query _ hquery, by simp, rfl, rfl⟩

theorem CleanUrl.text_units (h : CleanUrl url) : ∀ unit ∈ url.text, 0x20 < unit ∧ unit ≠ 35 := by
  refine List.forall_mem_append.mpr ⟨fun unit hunit ↦ ?_, fun unit hunit ↦ ?_⟩
  · obtain ⟨hlarge, hhash, -⟩ := isPathUnit_ne (h.pathname_units unit hunit)
    exact ⟨hlarge, hhash⟩
  · rcases h.search_cases with hsearch | ⟨query, hclean, -, -, hsearch⟩
    · simp [hsearch] at hunit
    · rw [hsearch] at hunit
      rcases mem_cons.mp hunit with rfl | hunit
      · decide
      · exact isQueryUnit_ne (hclean unit hunit)

/-- A text without control characters and spaces is not trimmed. -/
theorem trimmed_eq_self {text : Text} (h : ∀ unit ∈ text, 0x20 < unit) : trimmed text = text := by
  have hstart : text.dropWhile (fun unit ↦ decide (unit ≤ 0x20)) = text := by
    cases text with
    | nil => rfl
    | cons unit rest =>
      refine List.dropWhile_cons_of_neg ?_
      have := h unit mem_cons_self
      simp only [decide_eq_true_eq]
      omega
  have hend : text.rdropWhile (fun unit ↦ decide (unit ≤ 0x20)) = text := by
    refine List.rdropWhile_eq_self_iff.mpr fun hne ↦ ?_
    have := h _ (List.getLast_mem hne)
    simp only [decide_eq_true_eq]
    omega
  rw [trimmed, hstart, hend]
  refine List.filter_eq_self.mpr fun unit hunit ↦ ?_
  have := h unit hunit
  simp
  omega

theorem CleanUrl.reference (h : CleanUrl url) :
    (trimmed url.text).takeWhile (fun unit ↦ unit != 35) = url.text := by
  rw [trimmed_eq_self fun unit hunit ↦ (h.text_units unit hunit).1]
  refine List.takeWhile_eq_self_iff.mpr fun unit hunit ↦ ?_
  exact bne_iff_ne.mpr (h.text_units unit hunit).2

/-- The search of a URL behind a path is read as the query again. -/
theorem CleanUrl.parts_append (h : CleanUrl url) {path : Text}
    (hpath : ∀ unit ∈ path, isPathUnit unit = true) :
    pathPart (path ++ url.search) = path ∧
      (queryPart (path ++ url.search)).getD [] = url.query.getD [] := by
  have hplain : ∀ unit ∈ path, (unit != 63) = true :=
    fun unit hunit ↦ bne_iff_ne.mpr (isPathUnit_ne (hpath unit hunit)).2.2
  rw [pathPart, queryPart, List.takeWhile_append_of_pos hplain, List.dropWhile_append_of_pos hplain]
  rcases h.search_cases with hsearch | ⟨query, hclean, hne, hquery, hsearch⟩
  · rw [hsearch]
    refine ⟨append_nil path, ?_⟩
    unfold Url.search at hsearch
    split at hsearch
    · next hquery => rw [hquery]; rfl
    · next hquery => rw [hquery]; rfl
    · cases hsearch
  · rw [hsearch, hquery]
    refine ⟨append_nil path, ?_⟩
    exact percentEncode_eq_self keepsEscapes_query hclean

/-- URLs with the same query have the same search. -/
theorem search_eq {other : Url} (h : url.query.getD [] = other.query.getD []) :
    url.search = other.search := by
  have hsearch (url : Url) : url.search = match url.query.getD [] with
      | [] => []
      | unit :: rest => 63 :: unit :: rest := by
    unfold Url.search
    cases url.query with
    | none => rfl
    | some query => cases query <;> rfl
  rw [hsearch, hsearch, h]

theorem httpScheme_slash (rest : Text) : httpScheme (47 :: rest) = none := by
  simp [httpScheme, lower, ascii]

/-- The text of a URL is read as it stands, unless it starts with two slashes. -/
theorem parse_text (h : CleanUrl url) (hslashes : ¬ [47, 47] <+: url.text) :
    ∃ again, parse authorityOrigin base url.text = some again ∧ again.origin = base.origin ∧
      again.text = url.text := by
  obtain ⟨segment, segments, hpath⟩ := List.exists_cons_of_ne_nil h.path_ne_nil
  have hpathname : url.pathname =
      47 :: (segment ++ segments.flatMap fun segment ↦ 47 :: segment) := by
    rw [Url.pathname, hpath, flatMap_cons, cons_append]
  set rest := segment ++ segments.flatMap fun segment ↦ 47 :: segment with hrest
  have htext : url.text = 47 :: (rest ++ url.search) := by
    rw [Url.text, hpathname, cons_append]
  have hsegments := h.path
  rw [hpath] at hsegments
  have hhead : ((rest ++ url.search).head?.any isSlash) = false := by
    cases segment with
    | cons unit units =>
      exact ((hsegments (unit :: units) mem_cons_self).units unit mem_cons_self).2
    | nil =>
      cases segments with
      | cons next segments => exact absurd ⟨_, htext.symm⟩ hslashes
      | nil =>
        rcases h.search_cases with hsearch | ⟨query, -, -, -, hsearch⟩
        · rw [hsearch]
          rfl
        · rw [hsearch]
          rfl
  obtain ⟨hpart, hquery⟩ := h.parts_append h.pathname_units
  have hroot : rootedPath url.text = url.path := by
    unfold rootedPath
    rw [Url.text, hpart, hpathname]
    dsimp only
    rw [if_pos (by decide), hrest, splitOnP_segments, readPieces_eq_append hsegments, hpath]
    · rfl
    · exact fun piece hpiece unit hunit ↦ ((hsegments piece hpiece).units unit hunit).2
  refine ⟨{ base with path := url.path, query := queryPart url.text }, ?_, rfl, ?_⟩
  · unfold parse
    dsimp only
    rw [h.reference, htext, httpScheme_slash]
    dsimp only
    rw [if_pos (by decide), hhead, ← htext, hroot]
    rfl
  · exact congrArg (url.pathname ++ ·) (search_eq hquery)

/-- The length of the text of a path. -/
def pathLength (path : List Text) : ℕ := (path.flatMap fun segment ↦ 47 :: segment).length

theorem pathLength_append (path others : List Text) :
    pathLength (path ++ others) = pathLength path + pathLength others := by
  rw [pathLength, List.flatMap_append, List.length_append]
  rfl

theorem pathLength_singleton (segment : Text) : pathLength [segment] = segment.length + 1 := by
  simp [pathLength]

theorem pathLength_dropLast_le (path : List Text) : pathLength path.dropLast ≤ pathLength path := by
  cases hlast : path.getLast? with
  | none =>
    rw [List.getLast?_eq_none_iff.mp hlast]
    exact le_rfl
  | some last =>
    obtain ⟨before, rfl⟩ := List.getLast?_eq_some_iff.mp hlast
    rw [List.dropLast_concat, pathLength_append]
    exact Nat.le_add_right _ _

theorem pathLength_addPiece_le {more : Bool} {path : List Text} {piece : Text}
    (h : ∀ unit ∈ piece, isPathUnit unit = true) :
    pathLength (addPiece more path piece) ≤ pathLength path + (piece.length + 1) := by
  have hdrop := pathLength_dropLast_le path
  simp only [addPiece, percentEncode_eq_self keepsEscapes_path h]
  split_ifs
  · omega
  · rw [pathLength_append, pathLength_singleton, List.length_nil]
    omega
  · omega
  · rw [pathLength_append, pathLength_singleton, List.length_nil]
    omega
  · rw [pathLength_append, pathLength_singleton]

theorem pathLength_readPieces_le {path pieces : List Text}
    (h : ∀ piece ∈ pieces, ∀ unit ∈ piece, isPathUnit unit = true) :
    pathLength (readPieces path pieces) ≤
      pathLength path + (pieces.map fun piece ↦ piece.length + 1).sum := by
  fun_induction readPieces path pieces with
  | case1 path => simp
  | case2 path piece => simpa using pathLength_addPiece_le (h piece mem_cons_self)
  | case3 path piece next pieces ih =>
    obtain ⟨hpiece, hrest⟩ := forall_mem_cons.mp h
    have hadd := @pathLength_addPiece_le true path piece hpiece
    rw [map_cons, sum_cons]
    exact (ih hrest).trans (by omega)

theorem sum_splitOnP (separates : ℕ → Bool) (text : Text) :
    ((text.splitOnP separates).map fun piece ↦ piece.length + 1).sum = text.length + 1 := by
  induction text with
  | nil => rfl
  | cons unit rest ih =>
    rw [List.splitOnP_cons_eq_if_modifyHead, length_cons]
    split
    · rw [map_cons, sum_cons, ih]
      simp [Nat.add_comm]
    · obtain ⟨head, tail, hsplit⟩ :=
        List.exists_cons_of_ne_nil (splitOnP_ne_nil separates rest)
      rw [hsplit, map_cons, sum_cons] at ih
      rw [hsplit, List.modifyHead_cons, map_cons, sum_cons, length_cons]
      omega

/-- A path of kept units does not grow, up to its first slash. -/
theorem pathLength_rootedPath_le {text : Text}
    (h : ∀ unit ∈ pathPart text, isPathUnit unit = true) :
    pathLength (rootedPath text) ≤ (pathPart text).length + 1 := by
  have hsplit {rest : Text} (hrest : ∀ unit ∈ rest, isPathUnit unit = true) :
      pathLength (readPieces [] (rest.splitOnP isSlash)) ≤ rest.length + 1 := by
    have hread := @pathLength_readPieces_le [] (rest.splitOnP isSlash)
      fun piece hpiece unit hunit ↦ hrest unit (mem_splitOnP hpiece unit hunit).1
    rw [sum_splitOnP] at hread
    exact hread.trans (by simp [pathLength])
  unfold rootedPath
  cases hpart : pathPart text with
  | nil => decide
  | cons unit rest =>
    rw [hpart] at h
    dsimp only
    split
    · have := hsplit fun unit hunit ↦ h unit (mem_cons_of_mem _ hunit)
      rw [length_cons]
      omega
    · exact hsplit h

/-- What is dropped before a text that is kept. -/
theorem dropWhile_append_kept {drops : ℕ → Bool} {kept : Text}
    (h : ∀ unit ∈ kept.head?, drops unit = false) (text : Text) :
    (text ++ kept).dropWhile drops = text.dropWhile drops ++ kept := by
  induction text with
  | nil =>
    cases kept with
    | nil => rfl
    | cons unit rest => exact List.dropWhile_cons_of_neg (by simp [h unit rfl])
  | cons unit text ih =>
    rw [cons_append, List.dropWhile_cons, List.dropWhile_cons, ih]
    split <;> rfl

/-- A text that starts with two slashes gets shorter when it is read again. -/
theorem parse_slashes {again : Url} (h : CleanUrl url) (hslashes : [47, 47] <+: url.text)
    (hparse : parse authorityOrigin base url.text = some again) :
    again.text.length < url.text.length := by
  obtain ⟨tail, htail⟩ := hslashes
  have hhead {drops : ℕ → Bool} (hdrops : drops 63 = false) :
      ∀ unit ∈ url.search.head?, drops unit = false := by
    rcases h.search_cases with hsearch | ⟨query, -, -, -, hsearch⟩
    · simp [hsearch]
    · simpa [hsearch] using hdrops
  -- the path starts with the two slashes as well
  obtain ⟨short, hshort⟩ : ∃ short, url.pathname = 47 :: 47 :: short := by
    obtain ⟨segment, segments, hpath⟩ := List.exists_cons_of_ne_nil h.path_ne_nil
    have hunits := (h.path segment (hpath ▸ mem_cons_self)).units
    rw [Url.text, Url.pathname, hpath, flatMap_cons] at htail
    rw [Url.pathname, hpath, flatMap_cons]
    cases segment with
    | cons unit units =>
      obtain rfl : 47 = unit := (List.cons.inj (List.cons.inj htail).2).1
      exact absurd (hunits 47 mem_cons_self).2 (by decide)
    | nil =>
      cases segments with
      | cons next segments => exact ⟨_, rfl⟩
      | nil =>
        have hsearch : url.search = 47 :: tail := (List.cons.inj htail).2.symm
        have := @hhead isSlash (by decide) 47 (by rw [hsearch]; rfl)
        cases this
  have hread : parseAuthority authorityOrigin base.secure url.text = some again := by
    rw [← hparse]
    unfold parse
    dsimp only
    rw [h.reference, ← htail, cons_append, httpScheme_slash]
    rfl
  obtain ⟨origin, -, rfl⟩ := Option.map_eq_some_iff.mp hread
  set drops : ℕ → Bool := fun unit ↦ !isSlash unit && unit != 63 with hdrops
  set named := url.pathname.dropWhile isSlash with hnamed
  set rest := named.dropWhile drops with hrest
  have hcut : (url.text.dropWhile isSlash).dropWhile drops = rest ++ url.search := by
    rw [Url.text, dropWhile_append_kept (hhead (by decide)), dropWhile_append_kept (hhead rfl)]
  have hunits : ∀ unit ∈ rest, isPathUnit unit = true := by
    intro unit hunit
    refine h.pathname_units unit ?_
    exact (List.dropWhile_sublist _).subset ((List.dropWhile_sublist _).subset hunit)
  obtain ⟨hpart, hquery⟩ := h.parts_append hunits
  have hlength : rest.length + 2 ≤ url.pathname.length := by
    have hshorter : rest.length ≤ short.length := by
      calc rest.length ≤ named.length := (List.dropWhile_sublist _).length_le
        _ = (short.dropWhile isSlash).length := by
          rw [hnamed, hshort]
          rfl
        _ ≤ short.length := (List.dropWhile_sublist _).length_le
    rw [hshort, length_cons, length_cons]
    omega
  have hsearch : (Url.mk base.secure origin (rootedPath (rest ++ url.search))
      (queryPart (rest ++ url.search))).search = url.search := search_eq hquery
  have hpath := @pathLength_rootedPath_le (rest ++ url.search) (by rwa [hpart])
  rw [hpart] at hpath
  change (Url.mk base.secure origin (rootedPath ((url.text.dropWhile isSlash).dropWhile drops))
    (queryPart ((url.text.dropWhile isSlash).dropWhile drops))).text.length < _
  rw [hcut, Url.text, Url.text, List.length_append, List.length_append, hsearch]
  exact Nat.add_lt_add_right (hpath.trans_lt (by omega)) _

end Again

end Bdp.SpecialUrl
