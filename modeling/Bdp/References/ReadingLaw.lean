import Bdp.References.PrintedReference

/-!
# When printed references read back

What the readers accept, by the spelling of a text; and when the text of a reference reads back as
that reference in its long form, and as nothing else in its short form.
-/

namespace Bdp.References

open Admission CodeUnits Normalize
open Bdp.Except (bind_eq_ok ok_bind)
open Bool (eq_false_iff)

variable {platform : Platform} {scope input : Text}
variable {read : ReferenceSelection}

section Accepted

@[simp]
theorem readText_eq_ok {value : Text} {label : String} {result : Unit} :
    readText value label = .ok result ↔ value ≠ [] ∧ isUnicodeScalarString value = true :=
  check_eq_ok

theorem absolute_eq_ok {uri : Text} : absolute platform input scope = .ok uri ↔
    isHttp input = true ∧ parseCanonicalHttpUrl platform.parse input = true ∧ uri = input ∨
    isHttp input = false ∧ assertCanonicalPathSegments input = true ∧
      parseCanonicalHttpUrl platform.parse (scope ++ input) = true ∧ uri = scope ++ input := by
  rw [absolute]
  cases hhttp : isHttp input with
  | true =>
    rw [if_pos rfl]
    constructor
    · intro h
      obtain ⟨_, hcheck, h⟩ := bind_eq_ok.mp h
      exact .inl ⟨rfl, check_eq_ok.mp hcheck, (Except.ok.inj h).symm⟩
    · rintro (⟨_, h, rfl⟩ | ⟨h, _⟩)
      · rw [check_of h]
        rfl
      · cases h
  | false =>
    rw [if_neg nofun]
    constructor
    · intro h
      obtain ⟨_, hsegments, h⟩ := bind_eq_ok.mp h
      obtain ⟨_, hurl, h⟩ := bind_eq_ok.mp h
      exact .inr ⟨rfl, check_eq_ok.mp hsegments, check_eq_ok.mp hurl, (Except.ok.inj h).symm⟩
    · rintro (⟨h, _⟩ | ⟨_, hsegments, hurl, rfl⟩)
      · cases h
      · rw [check_of hsegments, check_of hurl]
        rfl

theorem cut_eq_ok {identity : Text} {suffix : Option Text} : cut input = .ok (identity, suffix) ↔
    (∃ rest, suffix = some rest ∧ input = 91 :: (identity ++ 93 :: 64 :: rest) ∧
      93 ∉ identity ∧ isHttp identity = true) ∨
    input.head? ≠ some 91 ∧ (suffix = none ∧ identity = input ∧ 64 ∉ input ∨
      ∃ rest, suffix = some rest ∧ input = identity ++ 64 :: rest ∧ 64 ∉ identity) := by
  unfold cut
  split
  · next rest =>
    have hhead : ¬ (91 :: rest).head? ≠ some 91 := fun h ↦ h rfl
    constructor
    · intro h
      split at h
      · next unit suffix' hrest =>
        split at h
        · next hhttp =>
          obtain ⟨rfl, rfl⟩ := Prod.mk.inj (Except.ok.inj h)
          have hunit : unit = 93 := by
            have hnot := List.head?_dropWhile_not (fun unit ↦ decide (unit ≠ closeBracket)) rest
            rw [hrest] at hnot
            exact not_not.mp (of_decide_eq_false hnot)
          refine .inl ⟨suffix', rfl, ?_, ?_, hhttp⟩
          · rw [← hunit, ← hrest, List.takeWhile_append_dropWhile]
          · intro hmem
            have hkept := List.mem_takeWhile_imp hmem
            simp [closeBracket] at hkept
        · cases h
      · cases h
    · rintro (⟨suffix', rfl, hinput, hnot, hhttp⟩ | ⟨h, _⟩)
      · obtain rfl := (List.cons.inj hinput).2
        have hall : ∀ unit ∈ identity, decide (unit ≠ closeBracket) = true :=
          fun unit hunit ↦ decide_eq_true fun heq ↦ hnot ((show unit = 93 from heq) ▸ hunit)
        rw [List.dropWhile_append_of_pos hall, List.takeWhile_append_of_pos hall]
        have htake : identity ++ (93 :: 64 :: suffix').takeWhile (· ≠ closeBracket) = identity :=
          List.append_nil identity
        rw [htake]
        exact if_pos hhttp
      · exact absurd h hhead
  · next hbracket =>
    have hhead : input.head? ≠ some 91 := by
      intro h
      cases input with
      | nil => cases h
      | cons first rest =>
        obtain rfl : first = 91 := Option.some.inj h
        exact hbracket rest rfl
    constructor
    · intro h
      split at h
      · next hnone =>
        obtain ⟨rfl, rfl⟩ := Prod.mk.inj (Except.ok.inj h)
        refine .inr ⟨hhead, .inl ⟨rfl, rfl, fun hmem ↦ ?_⟩⟩
        have hall := List.dropWhile_eq_nil_iff.mp hnone 64 hmem
        simp [atSign] at hall
      · next unit suffix' hrest =>
        obtain ⟨rfl, rfl⟩ := Prod.mk.inj (Except.ok.inj h)
        have hunit : unit = 64 := by
          have hnot := List.head?_dropWhile_not (fun unit ↦ decide (unit ≠ atSign)) input
          rw [hrest] at hnot
          exact not_not.mp (of_decide_eq_false hnot)
        refine .inr ⟨hhead, .inr ⟨suffix', rfl, ?_, ?_⟩⟩
        · rw [← hunit, ← hrest, List.takeWhile_append_dropWhile]
        · intro hmem
          have hkept := List.mem_takeWhile_imp hmem
          simp [atSign] at hkept
    · rintro (⟨_, _, rfl, _⟩ | ⟨_, ⟨rfl, rfl, hnot⟩ | ⟨suffix', rfl, rfl, hnot⟩⟩)
      · exact absurd rfl hhead
      · have hall : ∀ unit ∈ identity, decide (unit ≠ atSign) = true :=
          fun unit hunit ↦ decide_eq_true fun heq ↦ hnot ((show unit = 64 from heq) ▸ hunit)
        have hnil : identity.dropWhile (· ≠ atSign) = [] := List.dropWhile_eq_nil_iff.mpr hall
        rw [hnil]
      · have hall : ∀ unit ∈ identity, decide (unit ≠ atSign) = true :=
          fun unit hunit ↦ decide_eq_true fun heq ↦ hnot ((show unit = 64 from heq) ▸ hunit)
        rw [List.dropWhile_append_of_pos hall, List.takeWhile_append_of_pos hall]
        have htake : identity ++ (64 :: suffix').takeWhile (· ≠ atSign) = identity :=
          List.append_nil identity
        rw [htake]
        rfl

variable {token : Text}

theorem readSelection_exact {suffix : Text}
    (h : readSelection suffix = .ok (.exact token)) : suffix = 61 :: token := by
  unfold readSelection at h
  split at h
  · cases h
  split at h
  · obtain ⟨_, _, h⟩ := bind_eq_ok.mp h
    cases h
  split at h
  · obtain ⟨_, _, h⟩ := bind_eq_ok.mp h
    cases h
    rfl
  · cases h

theorem readSelection_token (hne : token ≠ []) (hscalar : isUnicodeScalarString token = true) :
    readSelection (61 :: token) = .ok (.exact token) := by
  have htext : readText token "revision token" = .ok () := readText_eq_ok.mpr ⟨hne, hscalar⟩
  rw [readSelection, if_neg (by simp [ascii]), if_neg (by simp [isOrdinal])]
  simp only [htext, ok_bind]
  rfl

theorem parseSelection_eq_ok : parseCanonicalReferenceSelection platform input scope = .ok read ↔
      (parseCanonicalScope platform.parse scope = true ∧ input ≠ [] ∧
        isUnicodeScalarString input = true) ∧
      (isHttp input = true ∧ parseCanonicalHttpUrl platform.parse input = true ∧
          read = ⟨input, none⟩ ∨
        isHttp input = false ∧ isBatch input = false ∧ hasScheme input = false ∧
          ∃ identity suffix uri, cut input = .ok (identity, suffix) ∧
            (identity ≠ [] ∧ isUnicodeScalarString identity = true) ∧
            absolute platform identity scope = .ok uri ∧
            (suffix = none ∧ read = ⟨uri, none⟩ ∨ ∃ rest selection, suffix = some rest ∧
              readSelection rest = .ok selection ∧ read = ⟨uri, some selection⟩)) := by
  rw [parseCanonicalReferenceSelection]
  constructor
  · intro h
    obtain ⟨_, hscope, h⟩ := bind_eq_ok.mp h
    obtain ⟨_, htext, h⟩ := bind_eq_ok.mp h
    refine ⟨⟨check_eq_ok.mp hscope, readText_eq_ok.mp htext⟩, ?_⟩
    split at h
    · next hhttp =>
      obtain ⟨uri, huri, h⟩ := bind_eq_ok.mp h
      obtain rfl := Except.ok.inj h
      obtain ⟨_, hurl, rfl⟩ | ⟨hnot, _⟩ := absolute_eq_ok.mp huri
      · exact .inl ⟨hhttp, hurl, rfl⟩
      · rw [hhttp] at hnot
        cases hnot
    split at h
    · cases h
    split at h
    · cases h
    next hhttp hbatch hscheme =>
    obtain ⟨⟨identity, suffix⟩, hcut, h⟩ := bind_eq_ok.mp h
    obtain ⟨_, hidentity, h⟩ := bind_eq_ok.mp h
    obtain ⟨uri, huri, h⟩ := bind_eq_ok.mp h
    refine .inr ⟨eq_false_iff.mpr hhttp, eq_false_iff.mpr hbatch,
      eq_false_iff.mpr hscheme, identity, suffix, uri, hcut, readText_eq_ok.mp hidentity, huri,
      ?_⟩
    cases suffix with
    | none => exact .inl ⟨rfl, (Except.ok.inj h).symm⟩
    | some rest =>
      obtain ⟨selection, hselection, h⟩ := bind_eq_ok.mp h
      exact .inr ⟨rest, selection, rfl, hselection, (Except.ok.inj h).symm⟩
  · rintro ⟨⟨hscope, htext⟩, h⟩
    have htext' : readText input "Reference" = .ok () := readText_eq_ok.mpr htext
    rw [check_of hscope, ok_bind, htext', ok_bind]
    obtain ⟨hhttp, hurl, rfl⟩ | ⟨hhttp, hbatch, hscheme, identity, suffix, uri, hcut, hidentity,
      huri, hread⟩ := h
    · rw [if_pos hhttp, absolute_eq_ok.mpr (.inl ⟨hhttp, hurl, rfl⟩)]
      rfl
    · have hidentity' : readText identity "Reference identity" = .ok () :=
        readText_eq_ok.mpr hidentity
      rw [if_neg (eq_false_iff.mp hhttp), if_neg (eq_false_iff.mp hbatch),
        if_neg (eq_false_iff.mp hscheme), hcut, ok_bind]
      simp only [hidentity', huri, ok_bind]
      obtain ⟨rfl, rfl⟩ | ⟨rest, selection, rfl, hselection, rfl⟩ := hread
      · rfl
      · simp only [hselection]
        rfl

/-- The reading of an endpoint: opaque URIs are admitted, batch references are not. -/
def endpointPolicy : Policy := ⟨false, false, false, true⟩

theorem parseReference_eq_ok {read : Reference} :
    parseCanonicalReference platform endpointPolicy input scope = .ok read ↔
      (parseCanonicalScope platform.parse scope = true ∧ input ≠ [] ∧
        isUnicodeScalarString input = true) ∧ isBatch input = false ∧
      (isHttp input = true ∧ parseCanonicalHttpUrl platform.parse input = true ∧
          read = ⟨input, none⟩ ∨
        isHttp input = false ∧ hasScheme input = true ∧ platform.isJsonSchemaUri input = true ∧
          read = ⟨input, none⟩ ∨
        isHttp input = false ∧ hasScheme input = false ∧ ∃ parsed,
          parseCanonicalReferenceSelection platform input scope = .ok parsed ∧
          (parsed.selection = none ∧ read = ⟨parsed.uri, none⟩ ∨
            ∃ token, parsed.selection = some (.exact token) ∧
              read = ⟨parsed.uri, some token⟩)) := by
  rw [parseCanonicalReference]
  constructor
  · intro h
    obtain ⟨_, hscope, h⟩ := bind_eq_ok.mp h
    obtain ⟨_, htext, h⟩ := bind_eq_ok.mp h
    refine ⟨⟨check_eq_ok.mp hscope, readText_eq_ok.mp htext⟩, ?_⟩
    split at h
    · obtain ⟨_, hpolicy, _⟩ := bind_eq_ok.mp h
      exact absurd (check_eq_ok.mp hpolicy).1 nofun
    next hbatch =>
    refine ⟨eq_false_iff.mpr hbatch, ?_⟩
    split at h
    · next hhttp =>
      obtain ⟨uri, huri, h⟩ := bind_eq_ok.mp h
      obtain rfl := Except.ok.inj h
      obtain ⟨_, hurl, rfl⟩ | ⟨hnot, _⟩ := absolute_eq_ok.mp huri
      · exact .inl ⟨hhttp, hurl, rfl⟩
      · rw [hhttp] at hnot
        cases hnot
    next hhttp =>
    split at h
    · next hscheme =>
      obtain ⟨_, hformat, h⟩ := bind_eq_ok.mp h
      obtain rfl := Except.ok.inj h
      exact .inr (.inl ⟨eq_false_iff.mpr hhttp, hscheme, (check_eq_ok.mp hformat).2, rfl⟩)
    · next hscheme =>
      obtain ⟨parsed, hparsed, h⟩ := bind_eq_ok.mp h
      refine .inr (.inr ⟨eq_false_iff.mpr hhttp, eq_false_iff.mpr hscheme, parsed, hparsed, ?_⟩)
      split at h
      · next hnone => exact .inl ⟨hnone, (Except.ok.inj h).symm⟩
      · next selection hselection =>
        obtain ⟨_, _, h⟩ := bind_eq_ok.mp h
        cases selection with
        | current =>
          obtain ⟨_, hpolicy, _⟩ := bind_eq_ok.mp h
          exact absurd (check_eq_ok.mp hpolicy) nofun
        | ordinal ordinal => cases h
        | exact token => exact .inr ⟨token, hselection, (Except.ok.inj h).symm⟩
  · rintro ⟨⟨hscope, htext⟩, hbatch, h⟩
    have htext' : readText input "Reference" = .ok () := readText_eq_ok.mpr htext
    rw [check_of hscope, ok_bind, htext', ok_bind, if_neg (eq_false_iff.mp hbatch)]
    obtain ⟨hhttp, hurl, rfl⟩ | ⟨hhttp, hscheme, hformat, rfl⟩ | ⟨hhttp, hscheme, parsed, hparsed,
      hread⟩ := h
    · rw [if_pos hhttp, absolute_eq_ok.mpr (.inl ⟨hhttp, hurl, rfl⟩)]
      rfl
    · rw [if_neg (eq_false_iff.mp hhttp), if_pos hscheme, check_of ⟨rfl, hformat⟩]
      rfl
    · rw [if_neg (eq_false_iff.mp hhttp), if_neg (eq_false_iff.mp hscheme), hparsed, ok_bind]
      obtain ⟨hnone, rfl⟩ | ⟨token, hexact, rfl⟩ := hread
      · rw [hnone]
        rfl
      · rw [hexact]
        rfl

end Accepted

section Spelled

variable {text : Text}

theorem isHttp_of_lower (h : isLowerHttp text = true) : isHttp text = true := by
  rw [isLowerHttp, Bool.or_eq_true, List.isPrefixOf_iff_prefix, List.isPrefixOf_iff_prefix] at h
  rw [isHttp, isLowerHttp, Bool.or_eq_true, List.isPrefixOf_iff_prefix, List.isPrefixOf_iff_prefix]
  exact h.imp (fun h ↦ h.map lowerCase) fun h ↦ h.map lowerCase

theorem isHttp_append (more : Text) (h : isHttp text = true) : isHttp (text ++ more) = true := by
  rw [isHttp, isLowerHttp, Bool.or_eq_true, List.isPrefixOf_iff_prefix,
    List.isPrefixOf_iff_prefix] at h ⊢
  rw [List.map_append]
  exact h.imp (fun h ↦ h.trans ⟨_, rfl⟩) fun h ↦ h.trans ⟨_, rfl⟩

theorem hasScheme_append (more : Text) (h : hasScheme text = true) :
    hasScheme (text ++ more) = true := by
  cases text with
  | nil => cases h
  | cons first rest =>
    rw [hasScheme, afterScheme] at h
    rw [List.cons_append, hasScheme, afterScheme]
    split at h
    · next halpha =>
      rw [if_pos halpha]
      split at h
      · next rest' hrest =>
        rw [List.dropWhile_append, hrest]
        rfl
      · cases h
    · cases h

variable {right left : Text}

theorem hasLoneSurrogate_append (h : HasLoneSurrogate (left ++ right)) :
    HasLoneSurrogate left ∨ HasLoneSurrogate right := by
  obtain ⟨before, unit, after, heq, hlone⟩ := h
  obtain ⟨inner, rfl, rfl⟩ | ⟨inner, rfl, hinner⟩ := List.append_eq_append_iff.mp heq
  · refine .inr ⟨inner, unit, after, rfl, hlone.imp_right fun hlow ↦ ⟨hlow.1, fun last hlast ↦ ?_⟩⟩
    apply hlow.2 last
    cases inner with
    | nil => cases hlast
    | cons first inner => rw [List.getLast?_append_cons]; exact hlast
  · cases inner with
    | nil =>
      rw [List.nil_append] at hinner
      exact .inr ⟨[], unit, after, hinner.symm, hlone.imp_right fun hlow ↦ ⟨hlow.1, nofun⟩⟩
    | cons first inner =>
      obtain ⟨rfl, rfl⟩ := List.cons.inj hinner
      refine .inl ⟨before, unit, inner, rfl, hlone.imp_left fun hhigh ↦
        ⟨hhigh.1, fun next hnext ↦ ?_⟩⟩
      apply hhigh.2 next
      cases inner with
      | nil => cases hnext
      | cons first inner => exact hnext

theorem scalar_append (hleft : isUnicodeScalarString left = true)
    (hright : isUnicodeScalarString right = true) :
    isUnicodeScalarString (left ++ right) = true := by
  rw [isUnicodeScalarString_iff] at hleft hright ⊢
  exact fun h ↦ (hasLoneSurrogate_append h).elim hleft hright

end Spelled

section Printed

variable {reference : Reference}

/-- What the endpoint of a Link can hold: an absolute URI, opaque ones in the URI format, and a
revision token that is not empty. -/
structure Endpoint (platform : Platform) (reference : Reference) : Prop where
  scheme : hasScheme reference.uri = true
  scalar : isUnicodeScalarString reference.uri = true
  format : isHttp reference.uri = false → platform.isJsonSchemaUri reference.uri = true
  revision : ∀ revision ∈ reference.revision,
    revision ≠ [] ∧ isUnicodeScalarString revision = true

def Reference.selected (reference : Reference) : ReferenceSelection :=
  ⟨reference.uri, reference.revision.map .exact⟩

/-- The long form reads back as the reference; whatever reads the short form reads it as that. -/
def ReadsBack (platform : Platform) (scope : Text) (reference : Reference) : Prop :=
  parseCanonicalReference platform endpointPolicy (ref scope true reference) scope =
      .ok reference ∧
    (∀ read, parseCanonicalReference platform endpointPolicy (ref scope false reference) scope =
      .ok read → read = reference) ∧
    ∀ read, parseCanonicalReferenceSelection platform (ref scope false reference) scope =
      .ok read → read = reference.selected

/-- The identities whose long form is spelled for the reader: URLs in canonical form and, unpinned,
opaque URIs that are not spelled like batch references; pinned, URLs without a closing bracket. -/
def LongSafe (platform : Platform) (reference : Reference) : Prop :=
  match reference.revision with
  | none => isBatch reference.uri = false ∧
      (isHttp reference.uri = true → parseCanonicalHttpUrl platform.parse reference.uri = true)
  | some _ => isLowerHttp reference.uri = true ∧ 93 ∉ reference.uri ∧
      parseCanonicalHttpUrl platform.parse reference.uri = true

/-- A text that was printed for a local identity and is spelled like something else: a canonical
URL, a URI with a scheme, a bracketed URL with a revision, or another local identity, before the
first at sign, with a revision. -/
inductive Misread (platform : Platform) (scope localId text : Text) : Prop
  | url (http : isHttp text = true) (canonical : parseCanonicalHttpUrl platform.parse text = true)
  | uri (http : isHttp text = false) (batch : isBatch text = false)
      (scheme : hasScheme text = true) (format : platform.isJsonSchemaUri text = true)
  | bracketed (identity suffix : Text) (selection : RevisionSelection)
      (spelled : text = 91 :: (identity ++ 93 :: 64 :: suffix)) (first : 93 ∉ identity)
      (scalar : isUnicodeScalarString identity = true) (http : isHttp identity = true)
      (canonical : parseCanonicalHttpUrl platform.parse identity = true)
      (selects : readSelection suffix = .ok selection)
  | suffixed (identity suffix : Text) (selection : RevisionSelection)
      (http : isHttp text = false) (batch : isBatch text = false)
      (scheme : hasScheme text = false) (head : text.head? ≠ some 91)
      (spelled : text = identity ++ 64 :: suffix) (first : 64 ∉ identity)
      (other : identity ≠ localId) (nonempty : identity ≠ [])
      (scalar : isUnicodeScalarString identity = true)
      (segments : assertCanonicalPathSegments identity = true)
      (canonical : parseCanonicalHttpUrl platform.parse (scope ++ identity) = true)
      (selects : readSelection suffix = .ok selection)

/-- A local identity with its revision behind an at sign, in brackets if it looks like a URL. -/
def withRevision (localId : Text) : Option Text → Text
  | none => localId
  | some revision =>
    if isLowerHttp localId then 91 :: (localId ++ 93 :: 64 :: 61 :: revision)
    else localId ++ 64 :: 61 :: revision

/-- The references whose printed forms are read as they are meant. -/
structure PrintsSafely (platform : Platform) (scope : Text) (reference : Reference) : Prop where
  long : LongSafe platform reference
  short : ∀ localId, scope ≠ [] → reference.uri = scope ++ localId →
    isUnicodeScalarString (withRevision localId reference.revision) = true →
    ¬ Misread platform scope localId (withRevision localId reference.revision)

theorem not_spelled_bracket (rest : Text) :
    isHttp (91 :: rest) = false ∧ isBatch (91 :: rest) = false ∧ hasScheme (91 :: rest) = false :=
  ⟨rfl, rfl, rfl⟩

variable {text : Text}

theorem isHttp_ne_nil (h : isHttp text = true) : text ≠ [] := by
  rintro rfl
  cases h

theorem hasScheme_ne_nil (h : hasScheme text = true) : text ≠ [] := by
  rintro rfl
  cases h

theorem long_iff (hscope : parseCanonicalScope platform.parse scope = true)
    (h : Endpoint platform reference) :
    parseCanonicalReference platform endpointPolicy (ref scope true reference) scope =
      .ok reference ↔ LongSafe platform reference := by
  obtain ⟨uri, revision⟩ := reference
  rw [parseReference_eq_ok]
  cases revision with
  | none =>
    constructor
    · rintro ⟨_, hbatch, hread⟩
      refine ⟨hbatch, fun hhttp ↦ ?_⟩
      obtain ⟨_, hurl, _⟩ | ⟨hnot, _⟩ | ⟨hnot, _⟩ := hread
      · exact hurl
      · exact absurd (hhttp.symm.trans hnot) nofun
      · exact absurd (hhttp.symm.trans hnot) nofun
    · rintro ⟨hbatch, hurl⟩
      refine ⟨⟨hscope, hasScheme_ne_nil h.scheme, h.scalar⟩, hbatch, ?_⟩
      cases hhttp : isHttp uri with
      | true => exact .inl ⟨hhttp, hurl hhttp, rfl⟩
      | false => exact .inr (.inl ⟨hhttp, h.scheme, h.format hhttp, rfl⟩)
  | some token =>
    obtain ⟨hne, hscalar⟩ := h.revision token rfl
    cases hlower : isLowerHttp uri with
    | true =>
      have hprinted : ref scope true ⟨uri, some token⟩ =
          91 :: (uri ++ 93 :: 64 :: 61 :: token) := by
        change (if isLowerHttp uri = true then 91 :: uri ++ [93] else uri) ++ 64 :: 61 :: token = _
        rw [if_pos hlower]
        simp
      have hspelled := not_spelled_bracket (uri ++ 93 :: 64 :: 61 :: token)
      rw [hprinted]
      constructor
      · rintro ⟨_, _, ⟨hhttp, _⟩ | ⟨_, hscheme, _⟩ | ⟨_, _, parsed, hparsed, hread⟩⟩
        · cases hhttp
        · cases hscheme
        · have huri : parsed.uri = uri := by
            obtain ⟨_, hread⟩ | ⟨_, _, hread⟩ := hread
            · exact (congrArg Reference.uri hread).symm
            · exact (congrArg Reference.uri hread).symm
          obtain ⟨_, ⟨hhttp, _⟩ | ⟨_, _, _, identity, suffix, found, hcut, _, hfound, hselected⟩⟩ :=
            parseSelection_eq_ok.mp hparsed
          · cases hhttp
          have hfoundUri : parsed.uri = found := by
            obtain ⟨_, rfl⟩ | ⟨_, _, _, _, rfl⟩ := hselected <;> rfl
          obtain ⟨rest, _, _, hfirst, hhttp⟩ | ⟨hhead, _⟩ := cut_eq_ok.mp hcut
          · obtain ⟨_, hurl, hidentity⟩ | ⟨hnot, _⟩ := absolute_eq_ok.mp hfound
            · obtain rfl : uri = identity := huri.symm.trans (hfoundUri.trans hidentity)
              exact ⟨hlower, hfirst, hurl⟩
            · exact absurd (hhttp.symm.trans hnot) nofun
          · exact absurd rfl hhead
      · rintro ⟨_, hfirst, hurl⟩
        have hhttp := isHttp_of_lower hlower
        have htext : isUnicodeScalarString (91 :: (uri ++ 93 :: 64 :: 61 :: token)) = true := by
          have hrest : isUnicodeScalarString (93 :: 64 :: 61 :: token) = true :=
            scalar_append (by decide : isUnicodeScalarString [93, 64, 61] = true) hscalar
          exact scalar_append (by decide : isUnicodeScalarString [91] = true)
            (scalar_append h.scalar hrest)
        have hparsed : parseCanonicalReferenceSelection platform
            (91 :: (uri ++ 93 :: 64 :: 61 :: token)) scope = .ok ⟨uri, some (.exact token)⟩ := by
          refine parseSelection_eq_ok.mpr ⟨⟨hscope, nofun, htext⟩, .inr ⟨hspelled.1, hspelled.2.1,
            hspelled.2.2, uri, some (61 :: token), uri, ?_, ⟨isHttp_ne_nil hhttp, h.scalar⟩, ?_,
            ?_⟩⟩
          · exact cut_eq_ok.mpr (.inl ⟨_, rfl, rfl, hfirst, hhttp⟩)
          · exact absolute_eq_ok.mpr (.inl ⟨hhttp, hurl, rfl⟩)
          · exact .inr ⟨_, _, rfl, readSelection_token hne hscalar, rfl⟩
        exact ⟨⟨hscope, nofun, htext⟩, hspelled.2.1, .inr (.inr ⟨hspelled.1, hspelled.2.2, _,
          hparsed, .inr ⟨token, rfl, rfl⟩⟩)⟩
    | false =>
      have hprinted : ref scope true ⟨uri, some token⟩ = uri ++ 64 :: 61 :: token := by
        change (if isLowerHttp uri = true then 91 :: uri ++ [93] else uri) ++ 64 :: 61 :: token = _
        rw [if_neg (eq_false_iff.mp hlower)]
      have hscheme := hasScheme_append (64 :: 61 :: token) h.scheme
      rw [hprinted]
      constructor
      · rintro ⟨_, _, ⟨_, _, hread⟩ | ⟨_, _, _, hread⟩ | ⟨_, hnot, _⟩⟩
        · exact absurd (congrArg Reference.revision hread) nofun
        · exact absurd (congrArg Reference.revision hread) nofun
        · exact absurd (hscheme.symm.trans hnot) nofun
      · rintro ⟨hnot, _⟩
        exact absurd (hnot.symm.trans hlower) nofun

variable {localId : Text}

theorem ref_local (hne : scope ≠ []) (huri : reference.uri = scope ++ localId) :
    ref scope false reference = withRevision localId reference.revision := by
  have hidentity : identity scope false reference.uri = localId := by
    have hstarts : scope.isPrefixOf (scope ++ localId) = true :=
      List.isPrefixOf_iff_prefix.mpr ⟨_, rfl⟩
    rw [huri, identity, if_pos (by simp [hne, hstarts]), List.drop_left]
  rw [ref, hidentity]
  cases reference.revision with
  | none => rfl
  | some token =>
    cases hlower : isLowerHttp localId with
    | true => simp [withRevision, hlower, openBracket, closeBracket, atSign, equalsSign]
    | false => simp [withRevision, hlower, atSign, equalsSign]

theorem short_of_local (hne : scope ≠ []) (huri : reference.uri = scope ++ localId) :
    (reference.revision = none ∧ ref scope false reference = localId) ∨
      ∃ token, reference.revision = some token ∧
        (ref scope false reference = localId ++ 64 :: 61 :: token ∨
          ref scope false reference = 91 :: (localId ++ 93 :: 64 :: 61 :: token)) := by
  rw [ref_local hne huri]
  cases reference.revision with
  | none => exact .inl ⟨rfl, rfl⟩
  | some token =>
    refine .inr ⟨token, rfl, ?_⟩
    cases hlower : isLowerHttp localId with
    | true => exact .inr (if_pos hlower)
    | false => exact .inl (if_neg (by simp [hlower]))

theorem short_of_external (h : ∀ localId, scope ≠ [] → reference.uri ≠ scope ++ localId) :
    ref scope false reference = ref scope true reference := by
  have hidentity : identity scope false reference.uri = identity scope true reference.uri := by
    rw [identity, identity, if_neg, if_neg (by simp)]
    intro hstarts
    simp only [Bool.not_false, Bool.true_and, Bool.and_eq_true, decide_eq_true_eq] at hstarts
    obtain ⟨localId, huri⟩ := List.isPrefixOf_iff_prefix.mp hstarts.2
    exact h localId hstarts.1 huri.symm
  rw [ref, ref, hidentity]

theorem selected_of_read {read : Reference} {parsed : ReferenceSelection}
    (hread : parseCanonicalReference platform endpointPolicy input scope = .ok read)
    (hparsed : parseCanonicalReferenceSelection platform input scope = .ok parsed) :
    parsed = read.selected := by
  obtain ⟨_, _, hread⟩ := parseReference_eq_ok.mp hread
  obtain ⟨hhttp, _, rfl⟩ | ⟨hhttp, hscheme, _, rfl⟩ | ⟨_, _, parsed', hparsed', hread⟩ := hread
  · obtain ⟨_, ⟨_, _, rfl⟩ | ⟨hnot, _⟩⟩ := parseSelection_eq_ok.mp hparsed
    · rfl
    · exact absurd (hhttp.symm.trans hnot) nofun
  · obtain ⟨_, ⟨hyes, _⟩ | ⟨_, _, hnot, _⟩⟩ := parseSelection_eq_ok.mp hparsed
    · exact absurd (hyes.symm.trans hhttp) nofun
    · exact absurd (hscheme.symm.trans hnot) nofun
  · obtain rfl := Except.ok.inj (hparsed'.symm.trans hparsed)
    obtain ⟨uri, selection⟩ := parsed'
    obtain ⟨hnone, rfl⟩ | ⟨token, hexact, rfl⟩ := hread
    · obtain rfl : selection = none := hnone
      rfl
    · obtain rfl : selection = some (.exact token) := hexact
      rfl

theorem Misread.wrong (hscope : parseCanonicalScope platform.parse scope = true)
    (hne : scope ≠ []) (huri : reference.uri = scope ++ localId)
    (hscalar : isUnicodeScalarString (ref scope false reference) = true)
    (h : Misread platform scope localId (ref scope false reference)) :
    (∃ read, parseCanonicalReference platform endpointPolicy (ref scope false reference) scope =
        .ok read ∧ read ≠ reference) ∨
      ∃ read, parseCanonicalReferenceSelection platform (ref scope false reference) scope =
        .ok read ∧ read ≠ reference.selected := by
  have hpositive : 0 < scope.length := List.length_pos_iff.mpr hne
  have hshort := short_of_local hne huri
  -- read without a revision, the short text is not the whole identity
  have hbare : reference.revision = none → ref scope false reference ≠ reference.uri := by
    intro hnone heq
    obtain ⟨_, hprinted⟩ | ⟨_, hsome, _⟩ := hshort
    · have hlength := congrArg List.length (hprinted.symm.trans (heq.trans huri))
      rw [List.length_append] at hlength
      omega
    · rw [hnone] at hsome
      cases hsome
  cases h with
  | url http canonical =>
    refine .inr ⟨⟨ref scope false reference, none⟩, parseSelection_eq_ok.mpr
      ⟨⟨hscope, isHttp_ne_nil http, hscalar⟩, .inl ⟨http, canonical, rfl⟩⟩, fun heq ↦ ?_⟩
    have hrevision := congrArg ReferenceSelection.selection heq
    exact hbare (Option.map_eq_none_iff.mp hrevision.symm) (congrArg ReferenceSelection.uri heq)
  | uri http batch scheme format =>
    refine .inl ⟨⟨ref scope false reference, none⟩, parseReference_eq_ok.mpr
      ⟨⟨hscope, hasScheme_ne_nil scheme, hscalar⟩, batch, .inr (.inl ⟨http, scheme, format, rfl⟩)⟩,
      fun heq ↦ ?_⟩
    exact hbare (congrArg Reference.revision heq).symm (congrArg Reference.uri heq)
  | bracketed identity suffix selection spelled first scalar http canonical selects =>
    have hspelled := not_spelled_bracket (identity ++ 93 :: 64 :: suffix)
    rw [← spelled] at hspelled
    refine .inr ⟨⟨identity, some selection⟩, parseSelection_eq_ok.mpr
      ⟨⟨hscope, by rw [spelled]; nofun, hscalar⟩, .inr ⟨hspelled.1, hspelled.2.1, hspelled.2.2,
        identity, some suffix, identity, cut_eq_ok.mpr (.inl ⟨suffix, rfl, spelled, first, http⟩),
        ⟨isHttp_ne_nil http, scalar⟩, absolute_eq_ok.mpr (.inl ⟨http, canonical, rfl⟩),
        .inr ⟨suffix, selection, rfl, selects, rfl⟩⟩⟩, fun heq ↦ ?_⟩
    -- the same identity and token would make a longer text than the one that was printed
    have hidentity : identity = reference.uri := congrArg ReferenceSelection.uri heq
    have hselection : some selection = reference.revision.map .exact :=
      congrArg ReferenceSelection.selection heq
    obtain ⟨hnone, _⟩ | ⟨token, hsome, hprinted⟩ := hshort
    · rw [hnone] at hselection
      cases hselection
    · rw [hsome] at hselection
      obtain rfl : selection = .exact token := Option.some.inj hselection
      obtain rfl := readSelection_exact selects
      have hlength := congrArg List.length spelled
      have hlonger := congrArg List.length (hidentity.trans huri)
      rw [List.length_append] at hlonger
      obtain hprinted | hprinted := hprinted
      · rw [hprinted] at hlength
        simp only [List.length_append, List.length_cons] at hlength
        omega
      · rw [hprinted] at hlength
        simp only [List.length_append, List.length_cons] at hlength
        omega
  | suffixed identity suffix selection http batch scheme head spelled first other nonempty scalar
      segments canonical selects =>
    have hplain : isHttp identity = false := by
      cases hhttp : isHttp identity with
      | false => rfl
      | true =>
        have hwhole := isHttp_append (64 :: suffix) hhttp
        rw [← spelled, http] at hwhole
        cases hwhole
    have hnonempty : ref scope false reference ≠ [] := by
      rw [spelled]
      simp
    refine .inr ⟨⟨scope ++ identity, some selection⟩, parseSelection_eq_ok.mpr
      ⟨⟨hscope, hnonempty, hscalar⟩, .inr ⟨http, batch, scheme, identity, some suffix,
        scope ++ identity, cut_eq_ok.mpr (.inr ⟨head, .inr ⟨suffix, rfl, spelled, first⟩⟩),
        ⟨nonempty, scalar⟩, absolute_eq_ok.mpr (.inr ⟨hplain, segments, canonical, rfl⟩),
        .inr ⟨suffix, selection, rfl, selects, rfl⟩⟩⟩, fun heq ↦ ?_⟩
    have hidentity : scope ++ identity = scope ++ localId :=
      (congrArg ReferenceSelection.uri heq).trans huri
    exact other (List.append_cancel_left hidentity)

theorem selected_of_not_misread (hne : scope ≠ [])
    (huri : reference.uri = scope ++ localId) (hendpoint : Endpoint platform reference)
    (h : ¬ Misread platform scope localId (ref scope false reference))
    (hread : parseCanonicalReferenceSelection platform (ref scope false reference) scope =
      .ok read) : read = reference.selected := by
  have hpositive : 0 < scope.length := List.length_pos_iff.mpr hne
  have hshort := short_of_local hne huri
  have hselected : reference.selected = ⟨scope ++ localId, reference.revision.map .exact⟩ := by
    rw [Reference.selected, huri]
  rw [hselected]
  obtain ⟨_, ⟨hhttp, hurl, _⟩ | ⟨hhttp, hbatch, hscheme, identity, suffix, uri, hcut, hidentity,
    hfound, hselection⟩⟩ := parseSelection_eq_ok.mp hread
  · exact absurd (.url hhttp hurl) h
  obtain ⟨rest, rfl, hspelled, hfirst, hbracket⟩ | ⟨hhead, ⟨rfl, rfl, hnot⟩ | ⟨rest, rfl, hspelled,
    hfirst⟩⟩ := cut_eq_ok.mp hcut
  · obtain ⟨hnone, _⟩ | ⟨_, selection, hsome, hselects, _⟩ := hselection
    · cases hnone
    obtain rfl := Option.some.inj hsome
    obtain ⟨_, hurl, _⟩ | ⟨hnot, _⟩ := absolute_eq_ok.mp hfound
    · exact absurd (.bracketed identity rest selection hspelled hfirst hidentity.2 hbracket hurl
        hselects) h
    · exact absurd (hbracket.symm.trans hnot) nofun
  · obtain ⟨_, rfl⟩ | ⟨_, _, hsome, _⟩ := hselection
    · obtain ⟨hyes, _⟩ | ⟨_, _, _, rfl⟩ := absolute_eq_ok.mp hfound
      · exact absurd (hyes.symm.trans hhttp) nofun
      obtain ⟨hnone, hprinted⟩ | ⟨token, _, hprinted | hprinted⟩ := hshort
      · rw [hprinted, hnone]
        rfl
      · rw [hprinted] at hnot
        exact absurd (by simp) hnot
      · rw [hprinted] at hnot
        exact absurd (by simp) hnot
    · cases hsome
  · obtain ⟨hnone, _⟩ | ⟨_, selection, hsome, hselects, rfl⟩ := hselection
    · cases hnone
    obtain rfl := Option.some.inj hsome
    have hplain : isHttp identity = false := by
      cases hhttp' : isHttp identity with
      | false => rfl
      | true =>
        have hwhole := isHttp_append (64 :: rest) hhttp'
        rw [← hspelled, hhttp] at hwhole
        cases hwhole
    obtain ⟨hyes, _⟩ | ⟨_, hsegments, hurl, rfl⟩ := absolute_eq_ok.mp hfound
    · exact absurd (hyes.symm.trans hplain) nofun
    by_cases hother : identity = localId
    · subst hother
      obtain ⟨_, hprinted⟩ | ⟨token, hrevision, hprinted | hprinted⟩ := hshort
      · have hlength := congrArg List.length (hprinted.symm.trans hspelled)
        simp at hlength
      · have hrest := List.append_cancel_left (hspelled.symm.trans hprinted)
        obtain rfl : rest = 61 :: token := (List.cons.inj hrest).2
        obtain ⟨htoken, hscalar⟩ := hendpoint.revision token hrevision
        rw [readSelection_token htoken hscalar] at hselects
        obtain rfl := Except.ok.inj hselects
        rw [hrevision]
        rfl
      · rw [hprinted] at hhead
        exact absurd rfl hhead
    · exact absurd (.suffixed identity rest selection hhttp hbatch hscheme hhead hspelled hfirst
        hother hidentity.1 hidentity.2 hsegments hurl hselects) h

/-- The printed forms of a reference read back exactly when they are spelled safely. -/
theorem printed_reads_back (hscope : parseCanonicalScope platform.parse scope = true)
    (hendpoint : Endpoint platform reference) :
    ReadsBack platform scope reference ↔ PrintsSafely platform scope reference := by
  constructor
  · rintro ⟨hlong, hread, hselected⟩
    refine ⟨(long_iff hscope hendpoint).mp hlong, fun localId hne huri hscalar hmisread ↦ ?_⟩
    rw [← ref_local hne huri] at hscalar hmisread
    obtain ⟨read, hok, hwrong⟩ | ⟨read, hok, hwrong⟩ := hmisread.wrong hscope hne huri hscalar
    · exact hwrong (hread read hok)
    · exact hwrong (hselected read hok)
  · rintro ⟨hsafe, hshort⟩
    have hlong := (long_iff hscope hendpoint).mpr hsafe
    by_cases hlocal : ∃ localId, scope ≠ [] ∧ reference.uri = scope ++ localId
    · obtain ⟨localId, hne, huri⟩ := hlocal
      have hshort := hshort localId hne huri
      rw [← ref_local hne huri] at hshort
      have hselected : ∀ read, parseCanonicalReferenceSelection platform
          (ref scope false reference) scope = .ok read → read = reference.selected := by
        intro read hok
        have hscalar := (parseSelection_eq_ok.mp hok).1.2.2
        exact selected_of_not_misread hne huri hendpoint (hshort hscalar) hok
      refine ⟨hlong, fun read hok ↦ ?_, hselected⟩
      obtain ⟨⟨_, _, hscalar⟩, hbatch, ⟨hhttp, hurl, _⟩ | ⟨hhttp, hscheme, hformat, _⟩ | ⟨_, _,
        parsed, hparsed, hread⟩⟩ := parseReference_eq_ok.mp hok
      · exact absurd (.url hhttp hurl) (hshort hscalar)
      · exact absurd (.uri hhttp hbatch hscheme hformat) (hshort hscalar)
      · obtain rfl := hselected parsed hparsed
        obtain ⟨uri, revision⟩ := reference
        cases revision with
        | none =>
          obtain ⟨_, rfl⟩ | ⟨_, hsome, _⟩ := hread
          · rfl
          · cases hsome
        | some token =>
          obtain ⟨hnone, _⟩ | ⟨_, hsome, rfl⟩ := hread
          · cases hnone
          · cases hsome
            rfl
    · have hexternal : ref scope false reference = ref scope true reference :=
        short_of_external fun localId hne huri ↦ hlocal ⟨localId, hne, huri⟩
      rw [ReadsBack, hexternal]
      exact ⟨hlong, fun read hok ↦ Except.ok.inj (hok.symm.trans hlong),
        fun read hok ↦ selected_of_read hlong hok⟩

end Printed

section Samples

def printedOrigin : Text := ascii "https://h".toList

/-- The URL parser on canonical URLs of one host, and the URI format by its scheme. -/
def printedPlatform : Platform where
  parse text :=
    if printedOrigin.isPrefixOf text then
      some ⟨text, ascii "https:".toList, [], [], printedOrigin, text.drop printedOrigin.length, []⟩
    else none
  isJsonSchemaUri := hasScheme

def printedScope : Text := ascii "https://h/s/".toList

theorem printedScope_canonical : parseCanonicalScope printedPlatform.parse printedScope = true := by
  decide +kernel

def pinnedBead : Reference := ⟨ascii "https://h/s/a".toList, some (ascii ['r'])⟩

theorem pinnedBead_long : LongSafe printedPlatform pinnedBead := by
  have hlower : isLowerHttp pinnedBead.uri = true := by decide +kernel
  have hopen : 93 ∉ pinnedBead.uri := by decide +kernel
  have hcanonical : parseCanonicalHttpUrl printedPlatform.parse pinnedBead.uri = true := by
    decide +kernel
  exact ⟨hlower, hopen, hcanonical⟩

/-- Before its first at sign the text `a@=r` has the local identity `a`. -/
theorem before_first_at {identity suffix : Text}
    (spelled : [97, 64, 61, 114] = identity ++ 64 :: suffix) (first : 64 ∉ identity) : identity = [97] := by
  match identity, spelled, first with
  | [], spelled, _ => exact absurd (List.cons.inj spelled).1 (by decide)
  | [letter], spelled, _ => rw [← (List.cons.inj spelled).1]
  | letter :: second :: rest, spelled, first =>
    refine absurd (List.mem_cons_of_mem _ ?_) first
    rw [← (List.cons.inj (List.cons.inj spelled).2).1]
    exact List.mem_cons_self

theorem pinnedBead_safe : PrintsSafely printedPlatform printedScope pinnedBead := by
  refine ⟨pinnedBead_long, fun localId _ huri _ hmisread ↦ ?_⟩
  have hspelled : pinnedBead.uri = printedScope ++ [97] := by decide +kernel
  have hlocal : localId = [97] := List.append_cancel_left (huri.symm.trans hspelled)
  have htext : withRevision [97] pinnedBead.revision = [97, 64, 61, 114] := by decide +kernel
  have hplain : isHttp [97, 64, 61, 114] = false ∧ hasScheme [97, 64, 61, 114] = false := by
    decide +kernel
  rw [hlocal, htext] at hmisread
  rcases hmisread with ⟨http⟩ | ⟨-, -, scheme⟩ | ⟨_, _, _, spelled⟩ |
    ⟨identity, _, _, -, -, -, -, spelled, first, other⟩
  · rw [hplain.1] at http
    cases http
  · rw [hplain.2] at scheme
    cases scheme
  · simp at spelled
  · exact other (before_first_at spelled first)

theorem printed_reads_back_bead : ReadsBack printedPlatform printedScope pinnedBead :=
  (printed_reads_back printedScope_canonical
    ⟨by decide +kernel, by decide +kernel, by decide +kernel, by
      rintro _ ⟨⟩
      exact ⟨nofun, by decide +kernel⟩⟩).mpr pinnedBead_safe

/-- A Bead of the Scope with an at sign in its path; in the short form, `a@=b`. -/
def atBead : Reference := ⟨ascii "https://h/s/a@=b".toList, none⟩

/-- A pinned opaque URI; in the long form, `urn:x@=r`. -/
def pinnedOpaque : Reference := ⟨ascii "urn:x".toList, some (ascii ['r'])⟩

/-- The Bead is read back as another one with a pin, and the URI as another one without. -/
theorem printed_misread :
    parseCanonicalScope printedPlatform.parse printedScope = true ∧
      (Endpoint printedPlatform atBead ∧
        parseCanonicalReference printedPlatform endpointPolicy (ref printedScope false atBead)
          printedScope = .ok ⟨ascii "https://h/s/a".toList, some (ascii ['b'])⟩ ∧
        ¬ ReadsBack printedPlatform printedScope atBead) ∧
      (Endpoint printedPlatform pinnedOpaque ∧
        parseCanonicalReference printedPlatform endpointPolicy
          (ref printedScope true pinnedOpaque) printedScope =
            .ok ⟨ascii "urn:x@=r".toList, none⟩ ∧
        ¬ ReadsBack printedPlatform printedScope pinnedOpaque) := by
  have hbead : parseCanonicalReference printedPlatform endpointPolicy
      (ref printedScope false atBead) printedScope =
        .ok ⟨ascii "https://h/s/a".toList, some (ascii ['b'])⟩ := by
    have hparsed : parseCanonicalReferenceSelection printedPlatform (ref printedScope false atBead)
        printedScope = .ok ⟨ascii "https://h/s/a".toList, some (.exact (ascii ['b']))⟩ := by
      refine parseSelection_eq_ok.mpr ⟨⟨printedScope_canonical, by decide +kernel,
        by decide +kernel⟩, .inr ⟨by decide +kernel, by decide +kernel, by decide +kernel,
          ascii ['a'], some (ascii "=b".toList), _, ?_, ⟨nofun, by decide +kernel⟩, ?_, .inr ⟨_, _,
            rfl, readSelection_token nofun (by decide +kernel), rfl⟩⟩⟩
      · refine cut_eq_ok.mpr (.inr ⟨by decide +kernel, .inr ⟨ascii "=b".toList, rfl, ?_, ?_⟩⟩)
        · decide +kernel
        · decide +kernel
      · exact absolute_eq_ok.mpr (.inr ⟨by decide +kernel, by decide +kernel, by decide +kernel,
          by decide +kernel⟩)
    exact parseReference_eq_ok.mpr ⟨⟨printedScope_canonical, by decide +kernel, by decide +kernel⟩,
      by decide +kernel, .inr (.inr ⟨by decide +kernel, by decide +kernel, _, hparsed,
        .inr ⟨_, rfl, rfl⟩⟩)⟩
  have huri : parseCanonicalReference printedPlatform endpointPolicy
      (ref printedScope true pinnedOpaque) printedScope = .ok ⟨ascii "urn:x@=r".toList, none⟩ := by
    refine parseReference_eq_ok.mpr ⟨⟨printedScope_canonical, by decide +kernel,
      by decide +kernel⟩, by decide +kernel, .inr (.inl ⟨by decide +kernel, by decide +kernel,
        by decide +kernel, ?_⟩)⟩
    decide +kernel
  refine ⟨printedScope_canonical, ⟨⟨by decide +kernel, by decide +kernel, by decide +kernel, nofun⟩,
    hbead, fun h ↦ ?_⟩, ⟨by decide +kernel, by decide +kernel, by decide +kernel, ?_⟩, huri,
    fun h ↦ ?_⟩
  · exact absurd (congrArg Reference.revision (h.2.1 _ hbead)) nofun
  · rintro _ ⟨⟩
    exact ⟨nofun, by decide +kernel⟩
  · exact absurd (congrArg Reference.revision (Except.ok.inj (huri.symm.trans h.1))) nofun

end Samples

end Bdp.References
