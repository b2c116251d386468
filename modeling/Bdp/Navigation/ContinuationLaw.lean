import Bdp.Navigation.Continuation
import Bdp.Retained.PatchReference

/-!
# Continuations are read back

What a next link carries: the stored URL with one more parameter. The fields of a request stand in
it under distinct names, and reading the link finds each of them again; the path decides which
branch of the route reads it.
-/

namespace Bdp.Navigation

open Evaluator
open UrlPath (Scope hasScheme canonicalPath)
open Transaction (maxSafeInteger)
open Bdp.Except (bind_eq_ok ok_bind)

section Urls

/-- The text of a Scope has no query, and its authority ends at the first slash behind it. -/
structure SerializedScope (scope : Scope) : Prop where
  query : '?' ∉ scope.href.toList
  authority : '/' ∉ scope.authority

variable {scope : Scope}

theorem splitOrigin_href (serialized : SerializedScope scope) (path : List Char) :
    splitOrigin (scope.href.toList ++ path) =
      (scope.origin, UrlPath.Scope.directoryPath scope.directories ++ path) := by
  have hscheme : ':' ∉ scope.scheme := fun hmem ↦
    absurd (List.all_eq_true.mp scope.scheme_chars ':' hmem) (by decide)
  let directories := scope.directories.flatMap fun directory ↦ directory ++ ['/']
  have htext : scope.href.toList ++ path = scope.scheme ++ ':' ::
      ("//".toList ++ (scope.authority ++ '/' :: (directories ++ path))) := by
    rw [UrlPath.Scope.href, String.toList_ofList, UrlPath.Scope.origin, UrlPath.Scope.directoryPath]
    simp [directories]
  unfold splitOrigin
  rw [htext]
  simp only [Spans.takeWhile_separator hscheme, Spans.dropWhile_separator hscheme]
  change (_ ++ ((scope.authority ++ '/' :: (directories ++ path)).takeWhile (· ≠ '/')),
    (scope.authority ++ '/' :: (directories ++ path)).dropWhile (· ≠ '/')) = _
  rw [Spans.takeWhile_separator serialized.authority,
    Spans.dropWhile_separator serialized.authority]
  rfl

variable (lossy : List UInt8 → String)

theorem parse_href {url : LinkUrl} (hbase : '?' ∉ url.base) :
    LinkUrl.parse lossy url.href = url := by
  obtain ⟨base, parameters⟩ := url
  unfold LinkUrl.parse LinkUrl.href
  by_cases hparameters : parameters = []
  · subst hparameters
    have hall : ∀ letter ∈ base, decide (letter ≠ '?') = true := fun letter hmem ↦
      decide_eq_true fun heq ↦ hbase (heq ▸ hmem)
    simp only [if_true, List.append_nil]
    rw [List.takeWhile_eq_self_iff.mpr hall, List.dropWhile_eq_nil_iff.mpr hall]
    rfl
  · simp only [if_neg hparameters]
    rw [Spans.takeWhile_separator hbase, Spans.dropWhile_separator hbase,
      List.drop_one, List.tail_cons, FormEncoding.parse_serialize]

end Urls

variable {allowed : List String}

section Fields

/-- The parameters of the fields that are given. -/
def presentFields (fields : List (String × Option String)) : List (String × String) :=
  fields.filterMap fun field ↦ field.2.map fun value ↦ (field.1, value)

theorem setParameter_absent {name value : String} {parameters : List (String × String)}
    (h : name ∉ parameters.map Prod.fst) :
    setParameter name value parameters = parameters ++ [(name, value)] := by
  induction parameters with
  | nil => rfl
  | cons pair parameters ih =>
    rw [List.map_cons, List.mem_cons, not_or] at h
    rw [setParameter, if_neg (Ne.symm h.1), ih h.2, List.cons_append]

variable {fields : List (String × Option String)}

theorem setFields_eq {url : LinkUrl}
    (h : (url.parameters.map Prod.fst ++ fields.map Prod.fst).Nodup) :
    setFields fields url = { url with parameters := url.parameters ++ presentFields fields } := by
  induction fields generalizing url with
  | nil => simp [setFields, presentFields]
  | cons field fields ih =>
    obtain ⟨name, value⟩ := field
    rw [List.map_cons] at h
    cases value with
    | none =>
      have hrest : (url.parameters.map Prod.fst ++ fields.map Prod.fst).Nodup :=
        h.sublist ((List.sublist_cons_self name _).append_left _)
      change setFields fields url = _
      rw [ih hrest]
      rfl
    | some value =>
      have habsent : name ∉ url.parameters.map Prod.fst := fun hmem ↦
        (List.disjoint_of_nodup_append h) hmem List.mem_cons_self
      change setFields fields (url.set name value) = _
      have hset : url.set name value =
          { url with parameters := url.parameters ++ [(name, value)] } := by
        rw [LinkUrl.set, setParameter_absent habsent]
      have hrest : ((url.set name value).parameters.map Prod.fst ++ fields.map Prod.fst).Nodup := by
        rw [hset]
        simpa using h
      rw [ih hrest, hset]
      simp [presentFields]

theorem presentFields_append (fields others : List (String × Option String)) :
    presentFields (fields ++ others) = presentFields fields ++ presentFields others :=
  List.filterMap_append

theorem names_presentFields (fields : List (String × Option String)) :
    ((presentFields fields).map Prod.fst).Sublist (fields.map Prod.fst) := by
  induction fields with
  | nil => exact .slnil
  | cons field fields ih =>
    obtain ⟨name, value⟩ := field
    cases value with
    | none => exact ih.cons name
    | some value => exact ih.cons_cons name

theorem lookup_presentFields (h : (fields.map Prod.fst).Nodup) (name : String) :
    (presentFields fields).lookup name = (fields.lookup name).join := by
  induction fields with
  | nil => rfl
  | cons field fields ih =>
    obtain ⟨other, value⟩ := field
    rw [List.map_cons, List.nodup_cons] at h
    have habsent : name = other → (presentFields fields).lookup name = none := by
      rintro rfl
      rw [List.lookup_eq_none_iff]
      intro pair hmem
      refine bne_iff_ne.mpr fun heq ↦ h.1 ?_
      rw [heq]
      exact (names_presentFields fields).subset (List.mem_map_of_mem hmem)
    have ih := ih h.2
    cases value with
    | none =>
      change (presentFields fields).lookup name = _
      rw [List.lookup_cons]
      split
      · next heq => exact habsent (beq_iff_eq.mp heq)
      · exact ih
    | some value =>
      change ((other, value) :: presentFields fields).lookup name = _
      rw [List.lookup_cons, List.lookup_cons]
      split
      · rfl
      · exact ih

theorem validateParameters_ok {url : RequestUrl} (hnodup : (url.parameters.map Prod.fst).Nodup)
    (hallowed : ∀ name ∈ url.parameters.map Prod.fst, name ∈ allowed) :
    url.validateParameters allowed = .ok () := by
  refine check_of (List.all_eq_true.mpr fun pair hmem ↦ ?_)
  have hname : pair.1 ∈ url.parameters.map Prod.fst := List.mem_map_of_mem hmem
  have honce : (url.parameters.filter fun other ↦ other.1 == pair.1).length = 1 := by
    rw [← List.countP_eq_length_filter, ← List.count_eq_one_of_mem hnodup hname, List.count,
      List.countP_map]
    rfl
  rw [Bool.and_eq_true, beq_iff_eq]
  exact ⟨List.contains_iff_mem.mpr (hallowed _ hname), honce⟩

end Fields

section Limits

theorem parseOptionalLimit_toString {limit : Option ℕ}
    (h : ∀ value ∈ limit, 1 ≤ value ∧ value ≤ maxSafeInteger) :
    parseOptionalLimit (limit.map toString) = .ok limit := by
  cases limit with
  | none => rfl
  | some value =>
    obtain ⟨hpos, hsafe⟩ := h value rfl
    have hdigits : (toString value).toList = Nat.toDigits 10 value := Nat.toList_repr
    have hall : (Nat.toDigits 10 value).all Char.isDigit = true :=
      List.all_eq_true.mpr fun _ ↦ Nat.isDigit_of_mem_toDigits (by decide) (by decide)
    have hread : (Nat.toDigits 10 value).foldl
        (fun limit digit ↦ 10 * limit + (digit.toNat - 48)) 0 = value := by
      calc _ = Nat.ofDigitChars 10 (Nat.toDigits 10 value) 0 := Nat.ofDigitChars_eq_foldl.symm
        _ = value := Nat.ofDigitChars_ten_toDigits
    have hhead : (Nat.toDigits 10 value).head? ≠ some '0' := fun hzero ↦ by
      rw [Retained.eq_zero_of_head_toDigits value hzero] at hpos
      omega
    rw [Option.map_some, parseOptionalLimit]
    simp only [hdigits, hread]
    rw [check_of ⟨hall, Nat.toDigits_ne_nil, hhead⟩, ok_bind,
      check_of (show value ≤ 9007199254740991 from hsafe), ok_bind]
    rfl

end Limits

section Links

def linkFields (request : PageRequest) (token : String) : List (String × Option String) :=
  continuationFields request ++ [("cursor", some token)]

/-- A parsed URL with the path of a request and its fields. -/
structure Carries (scope : Scope) (request : PageRequest) (token path : String)
    (url : RequestUrl) : Prop where
  relative : relativePath scope url = some path.toList
  parameters : url.parameters = presentFields (linkFields request token)

variable {scope : Scope} {request : PageRequest} {token path : String} {url : RequestUrl}

theorem nodup_linkFields (request : PageRequest) (token : String) :
    ((linkFields request token).map Prod.fst).Nodup := by
  cases request <;> simp [linkFields, continuationFields]

section

variable (h : Carries scope request token path url)
include h

theorem Carries.parameter (name : String) :
    url.parameter name = ((linkFields request token).lookup name).join := by
  rw [RequestUrl.parameter, h.parameters, lookup_presentFields (nodup_linkFields request token)]

theorem Carries.validated
    (hallowed : ∀ name ∈ (linkFields request token).map Prod.fst, name ∈ allowed) :
    url.validateParameters allowed = .ok () := by
  have hsublist := names_presentFields (linkFields request token)
  apply validateParameters_ok
  · rw [h.parameters]
    exact (nodup_linkFields request token).sublist hsublist
  · rw [h.parameters]
    exact fun name hmem ↦ hallowed name (hsublist.subset hmem)

end

variable (lossy : List UInt8 → String)

section

variable (hquery : '?' ∉ (continuationBase scope request).toList)
include hquery

theorem continuationUrlFor_eq : continuationUrlFor lossy scope request =
      LinkUrl.href ⟨(continuationBase scope request).toList,
        presentFields (continuationFields request)⟩ := by
  have hnames : ((continuationFields request).map Prod.fst).Nodup := by
    have hnodup := nodup_linkFields request ""
    rw [linkFields, List.map_append] at hnodup
    exact hnodup.sublist (List.sublist_append_left _ _)
  have hparse : LinkUrl.parse lossy (continuationBase scope request).toList =
      ⟨(continuationBase scope request).toList, []⟩ := by
    have hbare : LinkUrl.parse lossy (LinkUrl.href ⟨(continuationBase scope request).toList, []⟩) =
        ⟨(continuationBase scope request).toList, []⟩ := parse_href lossy hquery
    simpa [LinkUrl.href] using hbare
  rw [continuationUrlFor, hparse, setFields_eq (by simpa using hnames)]
  rfl

theorem withCursor_eq : withCursor lossy (continuationUrlFor lossy scope request) token =
      LinkUrl.href ⟨(continuationBase scope request).toList,
        presentFields (linkFields request token)⟩ := by
  have hcursor : "cursor" ∉ (presentFields (continuationFields request)).map Prod.fst := by
    intro hmem
    have hnodup := nodup_linkFields request token
    rw [linkFields, List.map_append] at hnodup
    exact List.disjoint_of_nodup_append hnodup
      ((names_presentFields (continuationFields request)).subset hmem) List.mem_cons_self
  rw [withCursor, continuationUrlFor_eq lossy hquery, parse_href lossy hquery, LinkUrl.set,
    setParameter_absent hcursor, linkFields, presentFields_append]
  rfl

end

theorem carries_next (serialized : SerializedScope scope)
    (hbase : continuationBase scope request = scope.href ++ path) (hquery : '?' ∉ path.toList) :
    Carries scope request token path
      (requestUrl lossy (withCursor lossy (continuationUrlFor lossy scope request) token)) := by
  have hbaseQuery : '?' ∉ (continuationBase scope request).toList := by
    rw [hbase, String.toList_append, List.mem_append, not_or]
    exact ⟨serialized.query, hquery⟩
  rw [withCursor_eq lossy hbaseQuery, requestUrl, parse_href lossy hbaseQuery, hbase,
    String.toList_append]
  constructor
  · unfold relativePath
    simp only [splitOrigin_href serialized, if_true]
    exact List.dropPrefix?_eq_some_iff.mpr ⟨_, rfl, beq_self_eq_true _⟩
  · rfl

end Links

variable {controls : PageControls}
variable {filters : CollectionFilters} {collection : Collection}

section Validity

variable {ports : UrlPorts} {scope : Scope}

/-- The local path of a valid Bead. -/
structure BeadPath (scope : Scope) (bead path : String) : Prop where
  named : bead = scope.href ++ path
  canonical : canonicalPath path = true
  unreserved : reservedPath path = false
  plain : hasScheme path = false

variable {bead : String}

theorem BeadPath.of_valid
    (h : validateLocalResourceIdentity scope bead = .ok ()) : ∃ path, BeadPath scope bead path := by
  obtain ⟨path, hpath, h⟩ := bind_eq_ok.mp h
  have hnamed := UrlPath.Scope.localPath_eq_some.mp (require_eq_ok.mp hpath)
  refine ⟨path, ?_⟩
  cases hresolved : resolveCanonicalLocalResourceId scope path with
  | error message =>
    rw [hresolved] at h
    simp only at h
    split at h <;> cases h
  | ok resolved =>
    rw [hresolved] at h
    obtain rfl : resolved = bead := check_eq_ok.mp h
    have hplain := (resolveCanonicalLocalResourceId_eq_iff hresolved).mp hnamed
    unfold resolveCanonicalLocalResourceId at hresolved
    rw [check_bind_eq_ok, check_bind_eq_ok, check_bind_eq_ok] at hresolved
    exact ⟨hnamed, hresolved.2.1, hresolved.2.2.1, hplain⟩

variable {path : String}

theorem BeadPath.query (h : BeadPath scope bead path) : '?' ∉ path.toList :=
  UrlPath.not_mem_of_canonicalPath h.canonical (by decide) (by decide) (by decide) (by decide)

theorem BeadPath.localPath (h : BeadPath scope bead path) : scope.localPath bead = some path := by
  rw [h.named, UrlPath.Scope.localPath_append]

theorem types_of_valid
    (h : validateRequest ports scope (.collection collection filters controls) = .ok ()) :
    (∃ type, parseOptionalTypeParameter ports scope filters.type = .ok type) ∧
      ∃ conformsTo, parseOptionalTypeParameter ports scope filters.conformsTo = .ok conformsTo := by
  obtain ⟨-, -, h⟩ := bind_eq_ok.mp h
  obtain ⟨type, htype, h⟩ := bind_eq_ok.mp h
  obtain ⟨conformsTo, hconformsTo, -⟩ := bind_eq_ok.mp h
  exact ⟨⟨type, htype⟩, ⟨conformsTo, hconformsTo⟩⟩

theorem bead_of_valid {direction : Option Direction}
    (h : validateRequest ports scope (.beadLinks bead direction controls) = .ok ()) :
    validateLocalResourceIdentity scope bead = .ok () := by
  obtain ⟨-, -, h⟩ := bind_eq_ok.mp h
  exact h

end Validity

section Routes

def noFilters : CollectionFilters :=
  { type := none, conformsTo := none, source := none, target := none, endpoint := none }

/-- The continuation that a next link stands for. -/
def continuationRequest (continuation : String) : PageRequest → ReadRequest
  | .beads .. => .collection .beads noFilters
      { limit := none, selector := none, continuation := some continuation }
  | .links .. => .collection .links noFilters
      { limit := none, selector := none, continuation := some continuation }
  | .types _ => .types { limit := none, selector := none, continuation := some continuation }
  | .beadLinks bead _ _ => .beadLinks bead none
      { limit := none, selector := none, continuation := some continuation }

variable {ports : UrlPorts} {scope : Scope} {request : PageRequest} {token path : String}
  {url : RequestUrl}

section

variable (h : Carries scope request token path url)
include h

theorem Carries.cursor : url.parameter "cursor" = some token := by
  rw [h.parameter]
  cases request <;> rfl

theorem Carries.limit (hlimit : ∀ value ∈ request.limit, 1 ≤ value ∧ value ≤ maxSafeInteger) :
    parseOptionalLimit (url.parameter "limit") = .ok request.limit := by
  rw [h.parameter]
  cases request <;> exact parseOptionalLimit_toString hlimit

end

def collectionParameters : Collection → List String
  | .beads => ["type", "conformsTo", "selector", "limit", "cursor"]
  | .links => ["type", "conformsTo", "source", "target", "endpoint", "selector", "limit", "cursor"]

theorem collectionRequest_next (h : Carries scope request token path url)
    (hnames : ∀ name ∈ (linkFields request token).map Prod.fst,
      name ∈ collectionParameters collection)
    (hlimit : ∀ value ∈ request.limit, 1 ≤ value ∧ value ≤ maxSafeInteger)
    (htype : url.parameter "type" = filters.type)
    (hconformsTo : url.parameter "conformsTo" = filters.conformsTo)
    (hvalid : validateRequest ports scope (.collection collection filters controls) = .ok ()) :
    collectionRequest ports scope url collection = .ok (.collection collection noFilters
      { limit := none, selector := none, continuation := some url.href }) := by
  obtain ⟨⟨type, hparsed⟩, ⟨conformsTo, hparsed'⟩⟩ := types_of_valid hvalid
  have hvalidated : url.validateParameters (collectionParameters collection) = .ok () :=
    h.validated hnames
  unfold collectionRequest
  change (url.validateParameters (collectionParameters collection) >>= fun _ ↦ _) = _
  rw [hvalidated, ok_bind, h.limit hlimit, ok_bind, htype, hparsed, ok_bind,
    hconformsTo, hparsed', ok_bind, h.cursor]
  rfl

theorem viewRequest_next {bead : String} {direction : Option Direction} {limit : Option ℕ}
    (h : Carries scope (.beadLinks bead direction limit) token path url)
    (hlimit : ∀ value ∈ limit, 1 ≤ value ∧ value ≤ maxSafeInteger) :
    viewRequest url bead = .ok (.beadLinks bead none
      { limit := none, selector := none, continuation := some url.href }) := by
  have hview : url.parameter "view" = some "links" := h.parameter "view"
  have hdirection : url.parameter "direction" = direction.map directionText :=
    h.parameter "direction"
  have hvalidated : url.validateParameters ["view", "direction", "limit", "cursor"] = .ok () :=
    h.validated (by simp [linkFields, continuationFields])
  unfold viewRequest
  rw [hview]
  simp only [if_true]
  rw [hvalidated, ok_bind, hdirection, h.limit hlimit, h.cursor]
  cases direction with
  | none => rfl
  | some direction => cases direction <;> rfl

theorem requestFromUrl_beads (h : Carries scope request token "bdp/beads" url) :
    requestFromUrl ports scope url = collectionRequest ports scope url .beads := by
  unfold requestFromUrl
  rw [h.relative]
  rfl

theorem requestFromUrl_links (h : Carries scope request token "bdp/links" url) :
    requestFromUrl ports scope url = collectionRequest ports scope url .links := by
  unfold requestFromUrl
  rw [h.relative]
  rfl

theorem requestFromUrl_types (h : Carries scope request token "types/" url) :
    requestFromUrl ports scope url = typesRequest url := by
  unfold requestFromUrl
  rw [h.relative]
  rfl

/-- The local path of the stored URL of a request. -/
structure StoredPath (scope : Scope) (request : PageRequest) (path : String) : Prop where
  base : continuationBase scope request = scope.href ++ path
  query : '?' ∉ path.toList

theorem requestFromUrl_next (hvalid : request.Valid ports scope)
    (hbelow : belowTypes scope request = false) :
    ∃ path, StoredPath scope request path ∧ ∀ token url, Carries scope request token path url →
      requestFromUrl ports scope url = .ok (continuationRequest url.href request) := by
  obtain ⟨hrequest, hlimit⟩ := hvalid
  cases request with
  | beads type conformsTo limit selector =>
    refine ⟨"bdp/beads", ⟨rfl, by decide⟩, fun token url h ↦ ?_⟩
    rw [requestFromUrl_beads h]
    exact collectionRequest_next h
      (by simp [linkFields, continuationFields, collectionParameters]) hlimit
      (h.parameter "type") (h.parameter "conformsTo") hrequest
  | links filters limit selector =>
    refine ⟨"bdp/links", ⟨rfl, by decide⟩, fun token url h ↦ ?_⟩
    rw [requestFromUrl_links h]
    exact collectionRequest_next h
      (by simp [linkFields, continuationFields, collectionParameters]) hlimit
      (h.parameter "type") (h.parameter "conformsTo") hrequest
  | types limit =>
    refine ⟨"types/", ⟨rfl, by decide⟩, fun token url h ↦ ?_⟩
    have hvalidated : url.validateParameters ["limit", "cursor"] = .ok () :=
      h.validated (by simp [linkFields, continuationFields])
    rw [requestFromUrl_types h, typesRequest, hvalidated, ok_bind, h.limit hlimit,
      ok_bind, h.cursor]
    rfl
  | beadLinks bead direction limit =>
    obtain ⟨path, hpath⟩ := BeadPath.of_valid (bead_of_valid hrequest)
    have htypes : typesPath path = false := by
      rw [belowTypes, hpath.localPath] at hbelow
      exact hbelow
    refine ⟨path, ⟨hpath.named, hpath.query⟩, fun token url h ↦ ?_⟩
    rw [requestFromUrl_path ports h.relative hpath.canonical hpath.unreserved hpath.plain htypes,
      ← hpath.named]
    exact viewRequest_next h hlimit

theorem validateRequest_continuation (hvalid : request.Valid ports scope) (continuation : String) :
    validateRequest ports scope (continuationRequest continuation request) = .ok () := by
  have halone : ∀ selected, collectionControlIssue
      { limit := none, selector := none, continuation := selected } false = .ok () :=
    fun _ ↦ check_of fun _ ↦ ⟨rfl, rfl, rfl⟩
  cases request with
  | beads type conformsTo limit selector => rfl
  | links filters limit selector => rfl
  | types limit => rfl
  | beadLinks bead direction limit =>
    change (collectionControlIssue _ false >>= fun _ ↦ validateLocalResourceIdentity scope bead) = _
    rw [halone, ok_bind, bead_of_valid hvalid.1]

variable (continuation : String)

theorem continuationOf_continuationRequest (request : PageRequest) :
    continuationOf (continuationRequest continuation request) = some continuation := by
  cases request <;> rfl

theorem sameKind_self (request : PageRequest) : sameKind (continuationRequest continuation request)
      (continuationRequest continuation request) = true := by
  cases request <;> simp [continuationRequest, sameKind]

end Routes

section RoundTrip

variable (lossy : List UInt8 → String) {ports : UrlPorts} {scope : Scope} {request : PageRequest}

theorem delete_cursor (hquery : '?' ∉ (continuationBase scope request).toList) (token : String) :
    ((LinkUrl.parse lossy (withCursor lossy (continuationUrlFor lossy scope request) token)).delete
      "cursor").href = continuationUrlFor lossy scope request := by
  have hkept : ∀ pair ∈ presentFields (continuationFields request),
      (pair.1 != "cursor") = true := by
    intro pair hmem
    refine bne_iff_ne.mpr fun heq ↦ ?_
    have hnodup := nodup_linkFields request token
    rw [linkFields, List.map_append] at hnodup
    refine List.disjoint_of_nodup_append hnodup ?_ List.mem_cons_self
    rw [← heq]
    exact (names_presentFields (continuationFields request)).subset (List.mem_map_of_mem hmem)
  rw [withCursor_eq lossy hquery, parse_href lossy hquery, continuationUrlFor_eq lossy hquery,
    LinkUrl.delete, linkFields, presentFields_append, List.filter_append,
    List.filter_eq_self.mpr hkept]
  congr 2
  exact List.append_nil _

theorem roundTrips_of_valid (serialized : SerializedScope scope)
    (hvalid : request.Valid ports scope) (hbelow : belowTypes scope request = false) :
    RoundTrips lossy scope ports request := by
  intro token
  obtain ⟨path, ⟨hbase, hquery⟩, hread⟩ := requestFromUrl_next hvalid hbelow
  have hbaseQuery : '?' ∉ (continuationBase scope request).toList := by
    rw [hbase, String.toList_append, List.mem_append, not_or]
    exact ⟨serialized.query, hquery⟩
  let next := withCursor lossy (continuationUrlFor lossy scope request) token
  have hcarries : Carries scope request token path (requestUrl lossy next) :=
    carries_next lossy serialized hbase hquery
  have hparsed := hread token _ hcarries
  have hhref : (requestUrl lossy next).href.toList = next := String.toList_ofList
  refine ⟨_, hparsed, ?_, validateRequest_continuation hvalid _, ?_⟩
  · rw [continuationOf_continuationRequest]
    rfl
  · unfold continuationDetails
    rw [continuationOf_continuationRequest, require_some, ok_bind, hhref]
    simp only
    rw [hparsed, ok_bind, check_of ⟨continuationOf_continuationRequest _ _,
      sameKind_self _ _⟩, ok_bind, hcarries.cursor, require_some, ok_bind,
      delete_cursor lossy hbaseQuery]
    rfl

end RoundTrip

section BelowTypes

variable {ports : UrlPorts} {scope : Scope} {bead token path : String}
  {direction : Option Direction} {limit : Option ℕ} {url : RequestUrl}

theorem requestFromUrl_below (hcanonical : canonicalPath path = true)
    (htypes : typesPath path = true) (hrelative : relativePath scope url = some path.toList)
    (hparameters : url.parameters ≠ []) :
    requestFromUrl ports scope url = .error (.problem .invalidParameter) := by
  have hsegments : (path.toList.splitOn '/').filter (fun segment ↦ segment != []) =
      path.toList.splitOn '/' := filter_segments hcanonical
  obtain ⟨rest, hrest⟩ := List.isPrefixOf_iff_prefix.mp htypes
  have hsplit : path.toList.splitOn '/' = "types".toList :: rest.splitOn '/' := by
    rw [← hrest]
    simp [List.splitOn_cons_eq_if_modifyHead]
  have hne : rest ≠ [] := by
    rintro rfl
    rw [canonicalPath, hsplit] at hcanonical
    cases hcanonical
  unfold requestFromUrl
  rw [hrelative]
  simp only [hsegments]
  rw [if_neg, if_neg, if_neg, if_pos, if_pos (.inl hparameters)]
  · rw [hsplit]
    exact ⟨rfl, Nat.succ_le_succ (List.length_pos_iff.mpr (List.splitOn_ne_nil '/' rest))⟩
  · rw [← hrest]
    simpa using hne
  · rw [← hrest]
    simp
  · rw [← hrest]
    simp

end BelowTypes

section Distinct

variable {ports : UrlPorts} {scope : Scope} {request other : PageRequest}

theorem stored_of_valid (hvalid : request.Valid ports scope) :
    ∃ path, StoredPath scope request path := by
  cases request with
  | beads type conformsTo limit selector => exact ⟨"bdp/beads", rfl, by decide⟩
  | links filters limit selector => exact ⟨"bdp/links", rfl, by decide⟩
  | types limit => exact ⟨"types/", rfl, by decide⟩
  | beadLinks bead direction limit =>
    obtain ⟨path, hpath⟩ := BeadPath.of_valid (bead_of_valid hvalid.1)
    exact ⟨path, hpath.named, hpath.query⟩

variable {path : String}

theorem StoredPath.baseQuery (h : StoredPath scope request path)
    (serialized : SerializedScope scope) : '?' ∉ (continuationBase scope request).toList := by
  rw [h.base, String.toList_append, List.mem_append, not_or]
  exact ⟨serialized.query, h.query⟩

variable {bead : String}

theorem BeadPath.not_collection (h : BeadPath scope bead path) :
    path ∉ ["bdp/beads", "bdp/links", "types/"] := by
  have hcanonical := h.canonical
  have hunreserved := h.unreserved
  intro hmem
  simp only [List.mem_cons, List.not_mem_nil, or_false] at hmem
  rcases hmem with rfl | rfl | rfl
  · cases hunreserved
  · cases hunreserved
  · cases hcanonical

theorem bead_ne_collection (hvalid : validateLocalResourceIdentity scope bead = .ok ())
    (hpath : path ∈ ["bdp/beads", "bdp/links", "types/"]) : bead ≠ scope.href ++ path := by
  rintro rfl
  obtain ⟨other, hother⟩ := BeadPath.of_valid hvalid
  have heq : path = other := (String.append_right_inj _).mp hother.named
  exact hother.not_collection (heq ▸ hpath)

variable (lossy : List UInt8 → String)

theorem stored_eq (serialized : SerializedScope scope)
    (hvalid : request.Valid ports scope) (hother : other.Valid ports scope)
    (heq : continuationUrlFor lossy scope request = continuationUrlFor lossy scope other) :
    continuationBase scope request = continuationBase scope other ∧
      ∀ name, ((continuationFields request).lookup name).join =
        ((continuationFields other).lookup name).join := by
  obtain ⟨path, hpath⟩ := stored_of_valid hvalid
  obtain ⟨path', hpath'⟩ := stored_of_valid hother
  have hquery := hpath.baseQuery serialized
  have hquery' := hpath'.baseQuery serialized
  have hurl : LinkUrl.mk (continuationBase scope request).toList
        (presentFields (continuationFields request)) =
      ⟨(continuationBase scope other).toList, presentFields (continuationFields other)⟩ := by
    calc _ = LinkUrl.parse lossy (continuationUrlFor lossy scope request) := by
            rw [continuationUrlFor_eq lossy hquery, parse_href lossy hquery]
      _ = LinkUrl.parse lossy (continuationUrlFor lossy scope other) := by rw [heq]
      _ = _ := by rw [continuationUrlFor_eq lossy hquery', parse_href lossy hquery']
  obtain ⟨hbase, hfields⟩ := LinkUrl.mk.inj hurl
  have hlookup (request : PageRequest) (name : String) :
      (presentFields (continuationFields request)).lookup name =
        ((continuationFields request).lookup name).join := by
    refine lookup_presentFields ?_ name
    cases request <;> simp [continuationFields]
  refine ⟨String.toList_injective hbase, fun name ↦ ?_⟩
  rw [← hlookup request, hfields, hlookup other]

theorem limit_eq (hvalid : request.Valid ports scope) (hother : other.Valid ports scope)
    (heq : request.limit.map toString = other.limit.map toString) :
    request.limit = other.limit := by
  have hread := parseOptionalLimit_toString hvalid.2
  rw [heq, parseOptionalLimit_toString hother.2] at hread
  exact (Except.ok.inj hread).symm

theorem directionText_injective : Function.Injective directionText := by
  intro direction direction' heq
  cases direction <;> cases direction' <;> first | rfl | exact absurd heq (by decide)

theorem continuationUrlFor_injective
    (serialized : SerializedScope scope) (hvalid : request.Valid ports scope)
    (hother : other.Valid ports scope)
    (heq : continuationUrlFor lossy scope request = continuationUrlFor lossy scope other) :
    request = other := by
  obtain ⟨hbase, hfields⟩ := stored_eq lossy serialized hvalid hother heq
  have hlimit := limit_eq hvalid hother
  have hdistinct {path path' : String} (hne : path ≠ path') :
      scope.href ++ path ≠ scope.href ++ path' :=
    fun heq ↦ hne ((String.append_right_inj _).mp heq)
  cases request with
  | beads type conformsTo limit selector =>
    cases other with
    | beads type' conformsTo' limit' selector' =>
      obtain rfl : type = type' := hfields "type"
      obtain rfl : conformsTo = conformsTo' := hfields "conformsTo"
      obtain rfl : selector = selector' := hfields "selector"
      obtain rfl : limit = limit' := hlimit (hfields "limit")
      rfl
    | links filters limit selector => exact absurd hbase (hdistinct (by decide))
    | types limit => exact absurd hbase (hdistinct (by decide))
    | beadLinks bead direction limit =>
      exact absurd hbase.symm (bead_ne_collection (bead_of_valid hother.1) (by decide))
  | links filters limit selector =>
    cases other with
    | beads type conformsTo limit selector => exact absurd hbase (hdistinct (by decide))
    | links filters' limit' selector' =>
      obtain ⟨type, conformsTo, source, target, endpoint⟩ := filters
      obtain ⟨type', conformsTo', source', target', endpoint'⟩ := filters'
      obtain rfl : type = type' := hfields "type"
      obtain rfl : conformsTo = conformsTo' := hfields "conformsTo"
      obtain rfl : source = source' := hfields "source"
      obtain rfl : target = target' := hfields "target"
      obtain rfl : endpoint = endpoint' := hfields "endpoint"
      obtain rfl : selector = selector' := hfields "selector"
      obtain rfl : limit = limit' := hlimit (hfields "limit")
      rfl
    | types limit => exact absurd hbase (hdistinct (by decide))
    | beadLinks bead direction limit =>
      exact absurd hbase.symm (bead_ne_collection (bead_of_valid hother.1) (by decide))
  | types limit =>
    cases other with
    | beads type conformsTo limit selector => exact absurd hbase (hdistinct (by decide))
    | links filters limit selector => exact absurd hbase (hdistinct (by decide))
    | types limit' =>
      obtain rfl : limit = limit' := hlimit (hfields "limit")
      rfl
    | beadLinks bead direction limit =>
      exact absurd hbase.symm (bead_ne_collection (bead_of_valid hother.1) (by decide))
  | beadLinks bead direction limit =>
    have hbead {path : String} (hpath : path ∈ ["bdp/beads", "bdp/links", "types/"]) :
        bead ≠ scope.href ++ path := bead_ne_collection (bead_of_valid hvalid.1) hpath
    cases other with
    | beads type conformsTo limit selector => exact absurd hbase (hbead (by decide))
    | links filters limit selector => exact absurd hbase (hbead (by decide))
    | types limit => exact absurd hbase (hbead (by decide))
    | beadLinks bead' direction' limit' =>
      obtain rfl : bead = bead' := hbase
      obtain rfl : direction = direction' :=
        Option.map_injective directionText_injective (hfields "direction")
      obtain rfl : limit = limit' := hlimit (hfields "limit")
      rfl

end Distinct

section Continued

variable {ports : UrlPorts} {scope : Scope}

theorem not_roundTrips_of_below (lossy : List UInt8 → String) (serialized : SerializedScope scope)
    {request : PageRequest} (hvalid : request.Valid ports scope)
    (hbelow : belowTypes scope request = true) : ¬ RoundTrips lossy scope ports request := by
  intro hround
  obtain ⟨parsed, hparsed, -⟩ := hround "cursor"
  cases request with
  | beads type conformsTo limit selector => cases hbelow
  | links filters limit selector => cases hbelow
  | types limit => cases hbelow
  | beadLinks bead direction limit =>
    obtain ⟨path, hpath⟩ := BeadPath.of_valid (bead_of_valid hvalid.1)
    have htypes : typesPath path = true := by
      rw [belowTypes, hpath.localPath] at hbelow
      exact hbelow
    have hcarries : Carries scope (.beadLinks bead direction limit) "cursor" path _ :=
      carries_next lossy serialized hpath.named hpath.query
    have hparameters := hcarries.parameters
    rw [requestFromUrl_below hpath.canonical htypes hcarries.relative] at hparsed
    · cases hparsed
    · rw [hparameters]
      exact List.cons_ne_nil _ _

/-- The next links of a valid request are read as its continuation, with the cursor and the stored
projection, and no other valid request is stored under that projection, exactly when the request is
not for the Links of a Bead below the Types: there the route looks for a Type. -/
theorem continuation_roundTrip (lossy : List UInt8 → String) (serialized : SerializedScope scope)
    (request : PageRequest) (hvalid : request.Valid ports scope) :
    (RoundTrips lossy scope ports request ∧ ∀ other : PageRequest, other.Valid ports scope →
        continuationUrlFor lossy scope request = continuationUrlFor lossy scope other →
        request = other) ↔
      belowTypes scope request = false := by
  constructor
  · rintro ⟨hround, -⟩
    by_contra hbelow
    exact not_roundTrips_of_below lossy serialized hvalid (Bool.not_eq_false _ ▸ hbelow) hround
  · intro hbelow
    exact ⟨roundTrips_of_valid lossy serialized hvalid hbelow,
      fun other hother heq ↦ continuationUrlFor_injective lossy serialized hvalid hother heq⟩

/-- The text of bytes that are no UTF-8, each replaced. -/
def replaced (bytes : List UInt8) : String :=
  String.ofList (bytes.map fun _ ↦ Char.ofNat 65533)

theorem serialized_sample : SerializedScope sampleScope := ⟨by decide, by decide⟩

/-- Links from the Bead `a`, with a selector of reserved letters. -/
def selectedLinks : PageRequest :=
  .links { noFilters with source := some "https://h/a" } (some 20) (some "a = \"b&c\" + 1")

theorem selectedLinks_valid : selectedLinks.Valid samplePlane.ports sampleScope := ⟨rfl, by decide⟩

theorem continuation_roundTrip_links :
    (RoundTrips replaced sampleScope samplePlane.ports selectedLinks ∧
      ∀ other : PageRequest, other.Valid samplePlane.ports sampleScope →
        continuationUrlFor replaced sampleScope selectedLinks =
          continuationUrlFor replaced sampleScope other → selectedLinks = other) :=
  (continuation_roundTrip replaced serialized_sample selectedLinks selectedLinks_valid).mpr rfl

/-- The Links of the Bead `types/a`. -/
def typesBeadLinks : PageRequest := .beadLinks "https://h/types/a" (some .both) none

/-- The path `types/a` is the identity of a Bead, and a page of its Links is a valid request, but
the next link is refused. -/
theorem not_continued :
    resolveCanonicalLocalResourceId sampleScope "types/a" = .ok "https://h/types/a" ∧
      typesBeadLinks.Valid samplePlane.ports sampleScope ∧
      requestFromUrl samplePlane.ports sampleScope (requestUrl replaced
        (withCursor replaced (continuationUrlFor replaced sampleScope typesBeadLinks) "c")) =
        .error (.problem .invalidParameter) ∧
      ¬ RoundTrips replaced sampleScope samplePlane.ports typesBeadLinks := by
  have hvalid : typesBeadLinks.Valid samplePlane.ports sampleScope := ⟨rfl, by decide⟩
  refine ⟨rfl, hvalid, ?_, not_roundTrips_of_below replaced serialized_sample hvalid rfl⟩
  have hcarries : Carries sampleScope typesBeadLinks "c" "types/a" _ :=
    carries_next replaced serialized_sample rfl (by decide)
  refine requestFromUrl_below rfl rfl hcarries.relative ?_
  rw [hcarries.parameters]
  exact List.cons_ne_nil _ _

end Continued

end Bdp.Navigation
