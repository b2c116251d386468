import Bdp.Library.Checked
import Bdp.Retained.PatchReference

/-!
# Resizing an issued page

An issued URL is resized textually: its opaque part is meant to stay, and only its limit to change.
What a URL selects is told from its parameters; the textual change keeps that when the first text
that looks like a limit is the one limit parameter.
-/

namespace Bdp.Listing

open List (append_assoc append_nil filter_append)

/-- An issued URL. It is canonical: the text of the parsed URL, without a fragment. -/
abbrev Url := List Char

def limitName : List Char := ['l', 'i', 'm', 'i', 't']

/-- `limit=`. -/
def limitText : List Char := ['l', 'i', 'm', 'i', 't', '=']

section Parameters

/-- The query behind the first question mark. -/
def queryText (url : Url) : Option (List Char) :=
  match url.dropWhile (· ≠ '?') with
  | [] => none
  | _ :: query => some query

/-- The parameters as they are spelled; empty ones do not count. -/
def parameters (query : List Char) : List (List Char) := (query.splitOn '&').filter (· ≠ [])

def hexValue (digit : Char) : Option ℕ :=
  if digit.isDigit then some (digit.toNat - '0'.toNat)
  else if 'a' ≤ digit ∧ digit ≤ 'f' then some (10 + digit.toNat - 'a'.toNat)
  else if 'A' ≤ digit ∧ digit ≤ 'F' then some (10 + digit.toNat - 'A'.toNat)
  else none

/-- A name with its plus signs and percent escapes read, one letter for each byte. -/
def decodeName : List Char → List Char
  | '%' :: first :: second :: rest =>
    match hexValue first, hexValue second with
    | some high, some low => Char.ofNat (16 * high + low) :: decodeName rest
    | _, _ => '%' :: decodeName (first :: second :: rest)
  | letter :: rest => (if letter = '+' then ' ' else letter) :: decodeName rest
  | [] => []

def isLimit (parameter : List Char) : Bool :=
  decide (decodeName (parameter.takeWhile (· ≠ '=')) = limitName)

def limitParameters (url : Url) : List (List Char) :=
  ((queryText url).elim [] parameters).filter isLimit

/-- What a URL selects: everything but its limit. -/
structure Selection where
  base : Url
  others : List (List Char)
  deriving DecidableEq

def selection (url : Url) : Selection where
  base := url.takeWhile (· ≠ '?')
  others := ((queryText url).elim [] parameters).filter fun parameter ↦ !isLimit parameter

def limitOf (url : Url) : Option ℕ :=
  match limitParameters url with
  | [parameter] => Retained.arrayIndex (String.ofList ((parameter.dropWhile (· ≠ '=')).drop 1))
  | _ => none

end Parameters

section Resizing

/-- `issued.replace(/([?&])limit=[^&#]*/, "$1limit=" + size)`. -/
def replaceLimit (size : List Char) : Url → Url
  | [] => []
  | letter :: rest =>
    if (letter = '?' ∨ letter = '&') ∧ limitText.isPrefixOf rest then
      letter :: (limitText ++ size ++
        (rest.drop limitText.length).dropWhile fun other ↦ other ≠ '&' && other ≠ '#')
    else letter :: replaceLimit size rest

/-- Avoid a new serialization of the opaque issued selection. -/
def resizePage (issued : Url) (size : ℕ) : Except String Url :=
  if 1 < (limitParameters issued).length then .error "invalid continuation limit"
  else if (limitParameters issued).length = 1 then .ok (replaceLimit (Nat.toDigits 10 size) issued)
  else .ok (issued ++ (if (queryText issued).getD [] = [] then ['?'] else ['&']) ++ limitText ++
    Nat.toDigits 10 size)

end Resizing

section Resizable

/-- No text that looks like a limit begins inside `front`. -/
def NoEarlierLimit (front following : Url) : Prop :=
  ∀ before mark after, front = before ++ mark :: after → mark = '?' ∨ mark = '&' →
    limitText.isPrefixOf (after ++ following) = false

/-- The URLs that are resized as they are meant to be: no limit and no bare question mark at the
end, or one limit parameter that is the first text to look like one. -/
inductive Resizable (url : Url) : Prop
  | bare (h : '?' ∉ url) : Resizable url
  | unlimited (base query : Url) (hurl : url = base ++ '?' :: query) (hbase : '?' ∉ base)
      (hquery : query ≠ []) (hnone : limitParameters url = []) : Resizable url
  | limited (front : Url) (mark : Char) (value rest : Url)
      (hurl : url = front ++ mark :: (limitText ++ value ++ rest))
      (hmark : mark = '?' ∧ '?' ∉ front ∨ mark = '&' ∧ '?' ∈ front)
      (hfront : NoEarlierLimit front (mark :: (limitText ++ value ++ rest)))
      (hvalue : ∀ letter ∈ value, letter ≠ '&' ∧ letter ≠ '#')
      (hrest : ∀ first ∈ rest.head?, first = '&')
      (hone : (limitParameters url).length = 1) : Resizable url

variable {url front value rest : Url} {mark : Char}

theorem NoEarlierLimit.tail {letter : Char} {following : Url}
    (h : NoEarlierLimit (letter :: front) following) : NoEarlierLimit front following :=
  fun before mark after hfront hmark ↦
    h (letter :: before) mark after (congrArg (letter :: ·) hfront) hmark

theorem replaceLimit_eq (size : List Char) (hmark : mark = '?' ∨ mark = '&')
    (hfront : NoEarlierLimit front (mark :: (limitText ++ value ++ rest)))
    (hvalue : ∀ letter ∈ value, letter ≠ '&' ∧ letter ≠ '#')
    (hrest : ∀ first ∈ rest.head?, first = '&') :
    replaceLimit size (front ++ mark :: (limitText ++ value ++ rest)) =
      front ++ mark :: (limitText ++ size ++ rest) := by
  induction front with
  | nil =>
    have hlooks : limitText.isPrefixOf (limitText ++ value ++ rest) = true := by
      rw [append_assoc]
      exact List.isPrefixOf_iff_prefix.mpr (List.prefix_append _ _)
    have hdrop : (limitText ++ value ++ rest).drop limitText.length = value ++ rest := by
      rw [append_assoc]
      exact List.drop_left
    have hkept : (value ++ rest).dropWhile (fun other ↦ other ≠ '&' && other ≠ '#') = rest := by
      have hall : ∀ letter ∈ value, (decide (letter ≠ '&') && decide (letter ≠ '#')) = true := by
        intro letter hletter
        simp [hvalue letter hletter]
      rw [List.dropWhile_append_of_pos hall]
      cases rest with
      | nil => rfl
      | cons first rest =>
        obtain rfl := hrest first rfl
        rfl
    rw [List.nil_append, List.nil_append, replaceLimit, if_pos ⟨hmark, hlooks⟩, hdrop, hkept]
  | cons letter front ih =>
    have hno : ¬ ((letter = '?' ∨ letter = '&') ∧
        limitText.isPrefixOf (front ++ mark :: (limitText ++ value ++ rest)) = true) := by
      rintro ⟨hletter, hlooks⟩
      rw [hfront [] letter front rfl hletter] at hlooks
      cases hlooks
    rw [List.cons_append, replaceLimit, if_neg hno, ih hfront.tail]
    rfl

theorem queryText_of_mem {base query : Url} (hbase : '?' ∉ base) :
    queryText (base ++ '?' :: query) = some query := by
  have hall : ∀ letter ∈ base, decide (letter ≠ '?') = true :=
    fun letter hletter ↦ decide_eq_true fun heq ↦ hbase (heq ▸ hletter)
  rw [queryText, List.dropWhile_append_of_pos hall]
  rfl

theorem queryText_of_not_mem (h : '?' ∉ url) : queryText url = none := by
  have hall : ∀ letter ∈ url, decide (letter ≠ '?') = true :=
    fun letter hletter ↦ decide_eq_true fun heq ↦ h (heq ▸ hletter)
  have hnil : url.dropWhile (· ≠ '?') = [] := by
    rw [← append_nil url, List.dropWhile_append_of_pos hall]
    rfl
  rw [queryText, hnil]

theorem base_of_mem {base query : Url} (hbase : '?' ∉ base) :
    (base ++ '?' :: query).takeWhile (· ≠ '?') = base := by
  have hall : ∀ letter ∈ base, decide (letter ≠ '?') = true :=
    fun letter hletter ↦ decide_eq_true fun heq ↦ hbase (heq ▸ hletter)
  rw [List.takeWhile_append_of_pos hall]
  exact append_nil base

theorem parameters_append (query more : List Char) :
    parameters (query ++ '&' :: more) = parameters query ++ parameters more := by
  rw [parameters, List.splitOn_append_cons_self, filter_append]
  rfl

theorem parameters_limit (size : List Char) (hsize : ∀ letter ∈ size, letter ≠ '&')
    (hrest : ∀ first ∈ rest.head?, first = '&') :
    parameters (limitText ++ size ++ rest) =
      (limitText ++ size) :: (rest.tail.splitOn '&').filter (· ≠ []) := by
  have hplain : '&' ∉ limitText ++ size := by
    intro h
    obtain h | h := List.mem_append.mp h
    · exact absurd h (by decide)
    · exact hsize '&' h rfl
  have hone : parameters (limitText ++ size) = [limitText ++ size] := by
    rw [parameters, List.splitOn_eq_singleton hplain]
    rfl
  cases rest with
  | nil =>
    rw [append_nil, hone]
    rfl
  | cons first rest =>
    obtain rfl := hrest first rfl
    rw [parameters_append, hone]
    rfl

theorem isLimit_limit (size : List Char) : isLimit (limitText ++ size) = true := by
  have hname : (limitText ++ size).takeWhile (· ≠ '=') = limitName := rfl
  rw [isLimit, hname]
  rfl

theorem limit_value (size : List Char) :
    ((limitText ++ size).dropWhile (· ≠ '=')).drop 1 = size := rfl

theorem selection_query {base query : Url} (hbase : '?' ∉ base) : selection (base ++ '?' :: query) =
      ⟨base, (parameters query).filter fun parameter ↦ !isLimit parameter⟩ := by
  rw [selection, base_of_mem hbase, queryText_of_mem hbase]
  rfl

theorem limitParameters_query {base query : Url} (hbase : '?' ∉ base) :
    limitParameters (base ++ '?' :: query) = (parameters query).filter isLimit := by
  rw [limitParameters, queryText_of_mem hbase]
  rfl

theorem limitOf_eq {size : ℕ}
    (h : limitParameters url = [limitText ++ Nat.toDigits 10 size]) : limitOf url = some size := by
  rw [limitOf, h]
  simp only [limit_value]
  rw [Retained.arrayIndex_eq, JsonPatch.index?_eq_some]
  rfl

theorem digits_plain (size : ℕ) : ∀ letter ∈ Nat.toDigits 10 size, letter ≠ '&' := by
  rintro letter hletter rfl
  exact absurd (Nat.isDigit_of_mem_toDigits (by decide) (by decide) hletter) (by decide)

theorem limited_parameters {lead : Url} (hlead : lead = [] ∨ ∃ before, lead = before ++ ['&'])
    (hrest : ∀ first ∈ rest.head?, first = '&') :
    ∃ earlier later, ∀ value : Url, (∀ letter ∈ value, letter ≠ '&') →
      parameters (lead ++ (limitText ++ value ++ rest)) =
        earlier ++ (limitText ++ value) :: later := by
  obtain rfl | ⟨before, rfl⟩ := hlead
  · exact ⟨[], (rest.tail.splitOn '&').filter (· ≠ []), fun value hvalue ↦
      parameters_limit value hvalue hrest⟩
  · refine ⟨parameters before, (rest.tail.splitOn '&').filter (· ≠ []), fun value hvalue ↦ ?_⟩
    rw [append_assoc, List.singleton_append, parameters_append, parameters_limit value hvalue hrest]

theorem resize_limited {base lead : Url} (hbase : '?' ∉ base)
    (hlead : lead = [] ∨ ∃ before, lead = before ++ ['&'])
    (hvalue : ∀ letter ∈ value, letter ≠ '&') (hrest : ∀ first ∈ rest.head?, first = '&')
    (hone : (limitParameters (base ++ '?' :: (lead ++ (limitText ++ value ++ rest)))).length = 1)
    (size : ℕ) :
    selection (base ++ '?' :: (lead ++ (limitText ++ Nat.toDigits 10 size ++ rest))) =
        selection (base ++ '?' :: (lead ++ (limitText ++ value ++ rest))) ∧
      limitOf (base ++ '?' :: (lead ++ (limitText ++ Nat.toDigits 10 size ++ rest))) =
        some size := by
  obtain ⟨earlier, later, hparameters⟩ := limited_parameters hlead hrest
  have hold := hparameters value hvalue
  have hnew := hparameters (Nat.toDigits 10 size) (digits_plain size)
  rw [limitParameters_query hbase, hold, filter_append, List.filter_cons_of_pos
    (isLimit_limit value), List.length_append, List.length_cons] at hone
  have hearlier : earlier.filter isLimit = [] := List.length_eq_zero_iff.mp (by omega)
  have hlater : later.filter isLimit = [] := List.length_eq_zero_iff.mp (by omega)
  constructor
  · rw [selection_query hbase, selection_query hbase, hold, hnew]
    simp [filter_append, isLimit_limit]
  · apply limitOf_eq
    rw [limitParameters_query hbase, hnew, filter_append, List.filter_cons_of_pos
      (isLimit_limit _), hearlier, hlater]
    rfl

theorem append_limit {base query : Url} (hbase : '?' ∉ base)
    (hnone : (parameters query).filter isLimit = []) (size : ℕ) {lead : Url}
    (hlead : query = [] ∧ lead = [] ∨ lead = query ++ ['&']) :
    selection (base ++ '?' :: (lead ++ (limitText ++ Nat.toDigits 10 size))) =
        ⟨base, (parameters query).filter fun parameter ↦ !isLimit parameter⟩ ∧
      limitOf (base ++ '?' :: (lead ++ (limitText ++ Nat.toDigits 10 size))) = some size := by
  have hparameters : parameters (lead ++ (limitText ++ Nat.toDigits 10 size)) =
      parameters query ++ [limitText ++ Nat.toDigits 10 size] := by
    have hlimit : parameters (limitText ++ Nat.toDigits 10 size) =
        [limitText ++ Nat.toDigits 10 size] := by
      have hplain := parameters_limit (Nat.toDigits 10 size) (digits_plain size)
        (show ∀ first ∈ ([] : Url).head?, first = '&' from nofun)
      rwa [append_nil] at hplain
    obtain ⟨rfl, rfl⟩ | rfl := hlead
    · exact hlimit
    · rw [append_assoc, List.singleton_append, parameters_append, hlimit]
  constructor
  · rw [selection_query hbase, hparameters, filter_append]
    simp [isLimit_limit]
  · apply limitOf_eq
    rw [limitParameters_query hbase, hparameters, filter_append, hnone]
    simp [isLimit_limit]

theorem resizePage_of_resizable (h : Resizable url) (size : ℕ) :
    ∃ resized, resizePage url size = .ok resized ∧ selection resized = selection url ∧
      limitOf resized = some size := by
  cases h with
  | bare h =>
    have hquery := queryText_of_not_mem h
    have hlimits : limitParameters url = [] := by rw [limitParameters, hquery]; rfl
    obtain ⟨hselection, hlimit⟩ :=
      append_limit h (show (parameters []).filter isLimit = [] from rfl) size (.inl ⟨rfl, rfl⟩)
    refine ⟨url ++ '?' :: ([] ++ (limitText ++ Nat.toDigits 10 size)), ?_, ?_, hlimit⟩
    · rw [resizePage, hlimits, if_neg (by decide), if_neg (by decide), hquery]
      simp
    · rw [hselection, selection, hquery]
      have hbase : url.takeWhile (· ≠ '?') = url := by
        have hall : ∀ letter ∈ url, decide (letter ≠ '?') = true :=
          fun letter hletter ↦ decide_eq_true fun heq ↦ h (heq ▸ hletter)
        rw [← append_nil url, List.takeWhile_append_of_pos hall]
        rfl
      rw [hbase]
      rfl
  | unlimited base query hurl hbase hquery hnone =>
    subst hurl
    have htext : queryText (base ++ '?' :: query) = some query := queryText_of_mem hbase
    have hnone' := hnone
    rw [limitParameters_query hbase] at hnone'
    obtain ⟨hselection, hlimit⟩ := append_limit hbase hnone' size (.inr rfl)
    refine ⟨base ++ '?' :: ((query ++ ['&']) ++ (limitText ++ Nat.toDigits 10 size)), ?_, ?_,
      hlimit⟩
    · rw [resizePage, hnone, if_neg (by decide), if_neg (by decide), htext, Option.getD_some,
        if_neg hquery]
      simp
    · rw [hselection, selection_query hbase]
  | limited front mark value rest hurl hmark hfront hvalue hrest hone =>
    subst hurl
    have hresized : resizePage (front ++ mark :: (limitText ++ value ++ rest)) size =
        .ok (front ++ mark :: (limitText ++ Nat.toDigits 10 size ++ rest)) := by
      have hmark' : mark = '?' ∨ mark = '&' := hmark.imp And.left And.left
      rw [resizePage, hone, if_neg (by decide), if_pos rfl,
        replaceLimit_eq _ hmark' hfront hvalue hrest]
    have hplain : ∀ letter ∈ value, letter ≠ '&' := fun letter hletter ↦ (hvalue letter hletter).1
    refine ⟨_, hresized, ?_⟩
    obtain ⟨rfl, hbase⟩ | ⟨rfl, hmem⟩ := hmark
    · exact resize_limited hbase (.inl (rfl : ([] : Url) = [])) hplain hrest hone size
    · obtain ⟨base, query, hsplit, hbase⟩ := List.eq_append_cons_of_mem hmem
      have hshape : ∀ text : Url,
          front ++ '&' :: text = base ++ '?' :: ((query ++ ['&']) ++ text) := by
        intro text
        rw [hsplit]
        simp
      rw [hshape, hshape]
      rw [hshape] at hone
      exact resize_limited hbase (.inr ⟨query, rfl⟩) hplain hrest hone size

end Resizable

end Bdp.Listing
