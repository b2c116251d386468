import Bdp.ReadHttp.RequestTarget

/-!
# What a request URL says of its target

A path that passes the guard was written by a URL parser, so it is read again as it stands, at the
origin of the Scope. Only what starts with two slashes, the target or the path behind its authority,
loses what is read as an authority.
-/

namespace Bdp.ReadHttp

open CodeUnits SpecialUrl

section Cuts

/-- What follows an authority; where no path follows it, the path is `/`. -/
def behindAuthority (rest : Text) : Text :=
  match rest.dropWhile fun unit ↦ unit != 47 && unit != 63 with
  | [] => [47]
  | unit :: path => if unit = 47 then unit :: path else 47 :: unit :: path

/-- The path and the query of a target as they are written behind its http(s) scheme and authority,
if it has them. -/
def writtenPathAndQuery (target : Text) : Text :=
  match httpScheme target with
  | none => target
  | some (_, rest) => behindAuthority rest

/-- The path and the query that the guard cuts, also behind two slashes and an authority. -/
def cutPathAndQuery (target : Text) : Text :=
  match afterSlashes target with
  | none => target
  | some rest => behindAuthority rest

theorem length_behindAuthority_le (rest : Text) :
    (behindAuthority rest).length ≤ rest.length + 1 := by
  have hdrop : (rest.dropWhile fun unit ↦ unit != 47 && unit != 63).length ≤ rest.length :=
    (List.dropWhile_sublist _).length_le
  unfold behindAuthority
  split
  · simp
  · next unit path heq =>
    rw [heq] at hdrop
    split
    · omega
    · rw [List.length_cons]
      omega

theorem cutPathAndQuery_slashes {target : Text} (h : [47, 47] <+: target) :
    writtenPathAndQuery target = target ∧ (cutPathAndQuery target).length < target.length := by
  obtain ⟨rest, rfl⟩ := h
  have hscheme : httpScheme ([47, 47] ++ rest) = none := httpScheme_slash _
  have hafter : afterSlashes ([47, 47] ++ rest) = some rest := by
    unfold afterSlashes
    rw [hscheme]
    rfl
  unfold writtenPathAndQuery cutPathAndQuery
  rw [hscheme, hafter]
  refine ⟨rfl, (Nat.lt_succ_of_le (length_behindAuthority_le rest)).trans_eq ?_⟩
  simp

theorem cutPathAndQuery_eq {target : Text} (h : ¬ [47, 47] <+: target) :
    cutPathAndQuery target = writtenPathAndQuery target := by
  have hslashes : [47, 47].isPrefixOf target = false :=
    Bool.eq_false_iff.mpr (h ∘ List.isPrefixOf_iff_prefix.mp)
  unfold writtenPathAndQuery cutPathAndQuery afterSlashes
  rw [hslashes]
  cases httpScheme target <;> rfl

theorem httpScheme_eq_some {text rest : Text} {secure : Bool} :
    httpScheme text = some (secure, rest) ↔ ∃ scheme : Text, text = scheme ++ rest ∧
        scheme.map lower = if secure then ascii ['h', 't', 't', 'p', 's', ':', '/', '/']
          else ascii ['h', 't', 't', 'p', ':', '/', '/'] := by
  unfold httpScheme
  constructor
  · intro h
    split_ifs at h with hsecure hplain
    · obtain ⟨rfl, rfl⟩ := Prod.mk.inj (Option.some.inj h)
      exact ⟨text.take 8, (List.take_append_drop 8 text).symm, hsecure⟩
    · obtain ⟨rfl, rfl⟩ := Prod.mk.inj (Option.some.inj h)
      exact ⟨text.take 7, (List.take_append_drop 7 text).symm, hplain⟩
  · rintro ⟨scheme, rfl, hscheme⟩
    have hlength := congrArg List.length hscheme
    cases secure with
    | true =>
      have hlength : scheme.length = 8 := by simpa [ascii] using hlength
      rw [List.take_left' hlength, if_pos (by simpa using hscheme), List.drop_left' hlength]
    | false =>
      have hlength : scheme.length = 7 := by simpa [ascii] using hlength
      have hscheme' : scheme.map lower = ascii ['h', 't', 't', 'p', ':', '/', '/'] := by
        simpa using hscheme
      have hother : ((scheme ++ rest).take 8).map lower ≠
          ascii ['h', 't', 't', 'p', 's', ':', '/', '/'] := by
        intro heq
        have hfirst := congrArg (List.take 7) heq
        rw [← List.map_take, List.take_take, Nat.min_eq_left (by decide), List.take_left' hlength,
          hscheme'] at hfirst
        exact absurd hfirst (by decide)
      rw [if_neg hother, List.take_left' hlength, if_pos hscheme', List.drop_left' hlength]

/-- The query of a target with its question mark. -/
def writtenSearch (target : Text) : Text := target.dropWhile fun unit ↦ unit != 63

theorem pathPart_append_writtenSearch (target : Text) :
    pathPart target ++ writtenSearch target = target := List.takeWhile_append_dropWhile

theorem writtenSearch_head (target : Text) : ∀ unit ∈ (writtenSearch target).head?, unit = 63 := by
  intro unit hunit
  have := List.head?_dropWhile_not (fun unit ↦ unit != 63) target
  rw [show target.dropWhile (fun unit ↦ unit != 63) = writtenSearch target from rfl,
    Option.mem_def.mp hunit] at this
  simpa using this

theorem pathPart_ne (target : Text) : ∀ unit ∈ pathPart target, unit ≠ 63 := by
  intro unit hunit
  simpa using List.mem_takeWhile_imp hunit

theorem pathPart_append {text rest : Text} (h : ∀ unit ∈ text, unit ≠ 63) :
    pathPart (text ++ rest) = text ++ pathPart rest ∧
      writtenSearch (text ++ rest) = writtenSearch rest := by
  have hplain : ∀ unit ∈ text, (unit != 63) = true := fun unit hunit ↦ bne_iff_ne.mpr (h unit hunit)
  exact ⟨List.takeWhile_append_of_pos hplain, List.dropWhile_append_of_pos hplain⟩

theorem httpScheme_pathPart (target : Text) : httpScheme target =
      (httpScheme (pathPart target)).map fun cut ↦ (cut.1, cut.2 ++ writtenSearch target) := by
  cases hpath : httpScheme (pathPart target) with
  | some cut =>
    obtain ⟨scheme, hscheme, hletters⟩ := httpScheme_eq_some.mp hpath
    refine httpScheme_eq_some.mpr ⟨scheme, ?_, hletters⟩
    rw [← List.append_assoc, ← hscheme, pathPart_append_writtenSearch]
  | none =>
    cases htarget : httpScheme target with
    | none => rfl
    | some cut =>
      obtain ⟨scheme, rfl, hletters⟩ := httpScheme_eq_some.mp htarget
      have hplain : ∀ unit ∈ scheme, unit ≠ 63 := by
        rintro _ hunit rfl
        have hmem := List.mem_map_of_mem (f := lower) hunit
        rw [hletters] at hmem
        revert hmem
        cases cut.1 <;> decide
      have hscheme : httpScheme (pathPart (scheme ++ cut.2)) = some (cut.1, pathPart cut.2) :=
        httpScheme_eq_some.mpr ⟨scheme, (pathPart_append hplain).1, hletters⟩
      rw [hscheme] at hpath
      cases hpath

theorem afterSlashes_pathPart (target : Text) : afterSlashes target =
      (afterSlashes (pathPart target)).map fun rest ↦ rest ++ writtenSearch target := by
  unfold afterSlashes
  rw [httpScheme_pathPart target]
  cases httpScheme (pathPart target) with
  | some cut => rfl
  | none =>
    simp only [Option.map_none]
    by_cases hslashes : [47, 47] <+: target
    · obtain ⟨rest, rfl⟩ := hslashes
      obtain ⟨hpath, hsearch⟩ := @pathPart_append [47, 47] rest (by decide)
      rw [hpath, hsearch]
      exact congrArg some (pathPart_append_writtenSearch rest).symm
    · have hshort : ¬ [47, 47] <+: pathPart target :=
        fun h ↦ hslashes (h.trans (List.takeWhile_prefix _))
      rw [if_neg (by simpa using hslashes), if_neg (by simpa using hshort)]
      rfl

theorem afterSlashes_suffix {text rest : Text} (h : afterSlashes text = some rest) :
    rest <:+ text := by
  unfold afterSlashes at h
  split at h
  · next hscheme =>
    obtain rfl := Option.some.inj h
    obtain ⟨scheme, rfl, -⟩ := httpScheme_eq_some.mp hscheme
    exact List.suffix_append scheme _
  · split at h
    · obtain rfl := Option.some.inj h
      exact List.drop_suffix 2 text
    · cases h

theorem dropWhile_eq_of_ne {text : Text} (h : ∀ unit ∈ text, unit ≠ 63) :
    text.dropWhile (fun unit ↦ unit != 47 && unit != 63) =
      text.dropWhile fun unit ↦ unit != 47 := by
  induction text with
  | nil => rfl
  | cons unit rest ih =>
    obtain ⟨hunit, hrest⟩ := List.forall_mem_cons.mp h
    rw [List.dropWhile_cons, List.dropWhile_cons, ih hrest]
    simp [hunit]

theorem cutTarget_append (target : Text) :
    (cutTarget (pathPart target)).2 ++ writtenSearch target = cutPathAndQuery target := by
  unfold cutPathAndQuery behindAuthority cutTarget
  rw [afterSlashes_pathPart target]
  cases hrest : afterSlashes (pathPart target) with
  | none => exact pathPart_append_writtenSearch target
  | some rest =>
    have hplain : ∀ unit ∈ rest, unit ≠ 63 :=
      fun unit hunit ↦ pathPart_ne target unit ((afterSlashes_suffix hrest).subset hunit)
    have hsearch : ∀ unit ∈ (writtenSearch target).head?, (unit != 47 && unit != 63) = false := by
      intro unit hunit
      rw [writtenSearch_head target unit hunit]
      rfl
    have hdrop : (rest ++ writtenSearch target).dropWhile (fun unit ↦ unit != 47 && unit != 63) =
        rest.dropWhile (fun unit ↦ unit != 47) ++ writtenSearch target := by
      rw [dropWhile_append_kept hsearch, dropWhile_eq_of_ne hplain]
    simp only [Option.map_some, hdrop]
    cases hpath : rest.dropWhile (fun unit ↦ unit != 47) with
    | cons unit path =>
      have hslash : unit = 47 := by
        have := List.head?_dropWhile_not (fun unit ↦ unit != 47) rest
        simpa [hpath] using this
      simp [hslash]
    | nil =>
      cases hquery : writtenSearch target with
      | nil => rfl
      | cons unit query =>
        have hmark : unit = 63 := writtenSearch_head target unit (by rw [hquery]; rfl)
        simp [hmark]

end Cuts

variable {authorityOrigin : Bool → Text → Option Text}

section Guard

theorem cleanUrl_requestInvalid : CleanUrl requestInvalid :=
  ⟨by simpa [requestInvalid] using cleanSegment_nil, by simp [requestInvalid],
    by simp [requestInvalid]⟩

theorem normalizationSafeRawRequestPath_eq_some {target pathAndQuery : Text}
    (h : normalizationSafeRawRequestPath authorityOrigin target = some pathAndQuery) :
    pathAndQuery = cutPathAndQuery target ∧
      ∃ parsed, CleanUrl parsed ∧ parsed.text = pathAndQuery := by
  unfold normalizationSafeRawRequestPath at h
  split at h
  · cases h
  dsimp only at h
  split_ifs at h
  split at h
  · cases h
  · next parsed hparsed =>
    split at h
    · next hsame =>
      obtain rfl := Option.some.inj h
      exact ⟨cutTarget_append target, parsed, parse_clean cleanUrl_requestInvalid hparsed, hsame⟩
    · cases h

end Guard

section Requests

/-- A URL denotes something live of a Scope, whose resources, aliases and collections are known by
their local names. -/
def RequestScope.Denotes (scope : RequestScope) (live : Text → Prop) (url : Url) : Prop :=
  ∃ name, live name ∧ url.href = scope.origin ++ scope.path ++ name

/-- The URL of a request says what its target says: it is at the origin of the Scope, has the path
and the query of a target that passes the guard, and denotes nothing otherwise. -/
def SaysTarget (authorityOrigin : Bool → Text → Option Text) (scope : RequestScope)
    (live : Text → Prop) (requestTarget : Option Text) : Prop :=
  ∃ url, createCanonicalHttpRequest authorityOrigin scope requestTarget = some url ∧
    url.origin = scope.origin ∧
    (normalizationSafeRawRequestPath authorityOrigin (requestTarget.getD [47]) ≠ none →
      url.text = writtenPathAndQuery (requestTarget.getD [47])) ∧
    (normalizationSafeRawRequestPath authorityOrigin (requestTarget.getD [47]) = none →
      ¬ scope.Denotes live url)

theorem parse_invalidRequestTarget (scope : RequestScope) :
    parse authorityOrigin scope.canonicalOrigin invalidRequestTarget =
      some ⟨scope.secure, scope.origin, [invalidRequestTarget], none⟩ := rfl

theorem denotes_invalidRequestTarget (scope : RequestScope) (live : Text → Prop) :
    scope.Denotes live ⟨scope.secure, scope.origin, [invalidRequestTarget], none⟩ ↔
      scope.path = [47] ∧ live invalidRequestTarget := by
  have hhref : (Url.mk scope.secure scope.origin [invalidRequestTarget] none).href =
      scope.origin ++ 47 :: invalidRequestTarget := by
    simp [Url.href, Url.pathname]
  unfold RequestScope.Denotes
  rw [hhref]
  constructor
  · rintro ⟨name, hlive, hname⟩
    rw [List.append_assoc] at hname
    replace hname := List.append_cancel_left hname
    obtain ⟨rest, hpath⟩ : ∃ rest, scope.path = 47 :: rest := by
      cases hpath : scope.path with
      | nil => simpa [hpath] using scope.path_starts
      | cons unit rest =>
        obtain rfl : unit = 47 := by simpa [hpath] using scope.path_starts
        exact ⟨rest, rfl⟩
    rw [hpath, List.cons_append] at hname
    have hrest := (List.cons.inj hname).2
    cases hlast : rest.getLast? with
    | none =>
      obtain rfl := List.getLast?_eq_none_iff.mp hlast
      rw [List.nil_append] at hrest
      exact ⟨hpath, hrest ▸ hlive⟩
    | some last =>
      have hends := scope.path_ends
      rw [hpath, List.getLast?_cons, hlast] at hends
      obtain rfl : last = 47 := by simpa using hends
      have hmem : 47 ∈ invalidRequestTarget := by
        rw [hrest]
        exact List.mem_append_left _ (List.mem_of_getLast? hlast)
      exact absurd hmem (by decide)
  · rintro ⟨hpath, hlive⟩
    refine ⟨invalidRequestTarget, hlive, ?_⟩
    rw [hpath, List.append_assoc]
    rfl

/-- The URL of a request says what its target says exactly when a target that passes does not start
with two slashes, nor its path behind an http(s) authority, and the placeholder of a target that
does not pass is no live name of a Scope at the root of its origin. -/
theorem createCanonicalHttpRequest_says_iff (authorityOrigin : Bool → Text → Option Text)
    (scope : RequestScope) (live : Text → Prop) (requestTarget : Option Text) :
    SaysTarget authorityOrigin scope live requestTarget ↔
      (normalizationSafeRawRequestPath authorityOrigin (requestTarget.getD [47]) ≠ none →
        ¬ [47, 47] <+: writtenPathAndQuery (requestTarget.getD [47])) ∧
      (normalizationSafeRawRequestPath authorityOrigin (requestTarget.getD [47]) = none →
        ¬ (scope.path = [47] ∧ live invalidRequestTarget)) := by
  unfold SaysTarget createCanonicalHttpRequest
  dsimp only
  cases hguard : normalizationSafeRawRequestPath authorityOrigin (requestTarget.getD [47]) with
  | none =>
    rw [Option.getD_none, parse_invalidRequestTarget]
    constructor
    · rintro ⟨url, hurl, -, -, hlive⟩
      obtain rfl := Option.some.inj hurl
      refine ⟨fun h ↦ absurd rfl h, fun _ hdenotes ↦ hlive rfl ?_⟩
      exact (denotes_invalidRequestTarget scope live).mpr hdenotes
    · rintro ⟨-, hlive⟩
      refine ⟨_, rfl, rfl, fun h ↦ absurd rfl h, fun _ hdenotes ↦ hlive rfl ?_⟩
      exact (denotes_invalidRequestTarget scope live).mp hdenotes
  | some pathAndQuery =>
    obtain ⟨hcut, parsed, hclean, htext⟩ := normalizationSafeRawRequestPath_eq_some hguard
    rw [Option.getD_some, ← htext]
    by_cases hslashes : [47, 47] <+: parsed.text
    · have hparse {url : Url} (hurl : parse authorityOrigin scope.canonicalOrigin parsed.text =
          some url) : url.text ≠ writtenPathAndQuery (requestTarget.getD [47]) := by
        intro hsame
        have hshorter := parse_slashes hclean hslashes hurl
        rw [hsame, htext, hcut] at hshorter
        by_cases htarget : [47, 47] <+: requestTarget.getD [47]
        · obtain ⟨hwritten, hlength⟩ := cutPathAndQuery_slashes htarget
          rw [hwritten] at hshorter
          exact absurd (hshorter.trans hlength) (lt_irrefl _)
        · rw [cutPathAndQuery_eq htarget] at hshorter
          exact absurd hshorter (lt_irrefl _)
      have hwritten : [47, 47] <+: writtenPathAndQuery (requestTarget.getD [47]) := by
        by_cases htarget : [47, 47] <+: requestTarget.getD [47]
        · rwa [(cutPathAndQuery_slashes htarget).1]
        · rwa [← cutPathAndQuery_eq htarget, ← hcut, ← htext]
      constructor
      · rintro ⟨url, hurl, -, hsame, -⟩
        exact absurd (hsame (by simp)) (hparse hurl)
      · rintro ⟨hnone, -⟩
        exact absurd hwritten (hnone (by simp))
    · obtain ⟨url, hurl, horigin, hsame⟩ :=
        @parse_text authorityOrigin scope.canonicalOrigin parsed hclean hslashes
      by_cases htarget : [47, 47] <+: requestTarget.getD [47]
      · obtain ⟨hwritten, hlength⟩ := cutPathAndQuery_slashes htarget
        constructor
        · rintro ⟨other, hother, -, htold, -⟩
          obtain rfl := Option.some.inj (hurl.symm.trans hother)
          rw [← hcut, ← htext, ← hsame, htold (by simp), hwritten] at hlength
          exact absurd hlength (lt_irrefl _)
        · rintro ⟨hnone, -⟩
          exact absurd (hwritten.symm ▸ htarget) (hnone (by simp))
      · have hwritten := cutPathAndQuery_eq htarget
        rw [← hwritten, ← hcut, ← htext]
        exact ⟨fun _ ↦ ⟨fun _ ↦ hslashes, fun h ↦ by cases h⟩,
          fun _ ↦ ⟨url, hurl, horigin, fun _ ↦ hsame, fun h ↦ by cases h⟩⟩

/-- A parser of authorities that are plain hosts: the host is the rest of the origin. -/
def plainOrigin (secure : Bool) (authority : Text) : Option Text :=
  some (ascii (if secure then ['h', 't', 't', 'p', 's', ':', '/', '/']
    else ['h', 't', 't', 'p', ':', '/', '/']) ++ authority)

/-- The Scope `https://a/`. -/
def rootScope : RequestScope where
  secure := true
  origin := ascii ['h', 't', 't', 'p', 's', ':', '/', '/', 'a']
  path := [47]
  path_starts := rfl
  path_ends := rfl

/-- The target `http://b//c/d`. -/
def doubleSlash : Text :=
  ascii ['h', 't', 't', 'p', ':', '/', '/', 'b', '/', '/', 'c', '/', 'd']

theorem createCanonicalHttpRequest_doubleSlash :
    createCanonicalHttpRequest plainOrigin rootScope (some doubleSlash) =
      some ⟨true, ascii ['h', 't', 't', 'p', 's', ':', '/', '/', 'c'], [[100]], none⟩ := by
  decide

/-- The target `//b/c`. -/
def leadingSlashes : Text := ascii ['/', '/', 'b', '/', 'c']

theorem createCanonicalHttpRequest_leadingSlashes :
    createCanonicalHttpRequest plainOrigin rootScope (some leadingSlashes) =
      some ⟨true, ascii ['h', 't', 't', 'p', 's', ':', '/', '/', 'a'], [[99]], none⟩ := by
  decide

/-- The request for `http://b//c/d` leaves the origin of its Scope, `//b/c` loses its first segment,
and the empty target denotes the live name of the placeholder. -/
theorem doubleSlash_leaves_origin :
    ¬ SaysTarget plainOrigin rootScope (fun _ ↦ False) (some doubleSlash) ∧
      ¬ SaysTarget plainOrigin rootScope (fun _ ↦ False) (some leadingSlashes) ∧
      ¬ SaysTarget plainOrigin rootScope (· = invalidRequestTarget) (some []) := by
  refine ⟨?_, ?_, ?_⟩
  · rintro ⟨url, hurl, horigin, -⟩
    rw [createCanonicalHttpRequest_doubleSlash] at hurl
    obtain rfl := Option.some.inj hurl
    revert horigin
    decide
  · rintro ⟨url, hurl, -, hsame, -⟩
    rw [createCanonicalHttpRequest_leadingSlashes] at hurl
    obtain rfl := Option.some.inj hurl
    revert hsame
    decide
  · rintro ⟨url, hurl, -, -, hdenotes⟩
    have hguard : normalizationSafeRawRequestPath plainOrigin [] = none := rfl
    have hplaceholder : createCanonicalHttpRequest plainOrigin rootScope (some []) =
        some ⟨true, rootScope.origin, [invalidRequestTarget], none⟩ := rfl
    rw [hplaceholder] at hurl
    obtain rfl := Option.some.inj hurl
    exact hdenotes hguard ((denotes_invalidRequestTarget rootScope _).mpr ⟨rfl, rfl⟩)

end Requests

end Bdp.ReadHttp
