import Bdp.Evaluator.ReadChecks

/-!
# Addressing by URL

A Resource is read at its own URL as long as the route takes its path for a Resource and rebuilds the
same URL from it. Creation admits more paths than the route does: those below `types/`, below the
alias root and in the reserved namespace, the path of the service description, and paths that start
like an absolute URL.
-/

namespace Bdp.Evaluator

open Recovery (ResourceKind ResourceShape)
open Transaction (Reference)
open UrlPath (Scope hasScheme canonicalPath canonicalSegment)

section Paths

/-- The paths that the route takes for Types. -/
def typesPath (path : String) : Bool := "types/".toList.isPrefixOf path.toList

/-- The URL of a local path with parameters, as it is parsed. -/
def resourceUrl (scope : Scope) (path : String) (parameters : List (String × String)) : RequestUrl :=
  { origin := scope.origin
    pathname := UrlPath.Scope.directoryPath scope.directories ++ path.toList
    parameters, hasSearch := !parameters.isEmpty, hasHash := false
    href := scope.href ++ path ++ (if parameters = [] then ""
      else "?" ++ "&".intercalate (parameters.map fun entry ↦ entry.1 ++ "=" ++ entry.2)) }

def propertiesView : List (String × String) := [("view", "properties")]

variable {scope : Scope} {path : String} {parameters : List (String × String)}

theorem relativePath_resourceUrl : relativePath scope (resourceUrl scope path parameters) =
    some path.toList := by
  unfold relativePath
  rw [if_pos (show (resourceUrl scope path parameters).origin = scope.origin from rfl)]
  exact List.dropPrefix?_eq_some_iff.mpr ⟨_, rfl, beq_self_eq_true _⟩

theorem splitOn_eq_cons {text head : List Char} {tail : List (List Char)}
    (h : text.splitOn '/' = head :: tail) :
    tail = [] ∧ text = head ∨ tail ≠ [] ∧ ∃ rest, text = head ++ '/' :: rest := by
  have hjoin : ['/'].intercalate (text.splitOn '/') = text := List.intercalate_splitOn '/'
  rw [h] at hjoin
  cases tail with
  | nil =>
    left
    refine ⟨rfl, ?_⟩
    simpa using hjoin.symm
  | cons second tail =>
    right
    refine ⟨by simp, ['/'].intercalate (second :: tail), ?_⟩
    rw [List.intercalate_cons_of_ne_nil (by simp)] at hjoin
    simpa using hjoin.symm

theorem isPrefixOf_append {front rest : List Char} : front.isPrefixOf (front ++ rest) = true :=
  List.isPrefixOf_iff_prefix.mpr ⟨rest, rfl⟩

theorem filter_segments (hcanonical : canonicalPath path = true) :
    (path.toList.splitOn '/').filter (fun segment ↦ segment != []) = path.toList.splitOn '/' := by
  refine List.filter_eq_self.mpr fun segment hsegment ↦ ?_
  have hsegment := List.all_eq_true.mp hcanonical segment hsegment
  unfold canonicalSegment at hsegment
  split at hsegment
  · cases hsegment
  · simp only [Bool.and_eq_true] at hsegment
    exact hsegment.1.1.1.1.1.1

variable (ports : UrlPorts)

theorem requestFromUrl_path {url : RequestUrl}
    (hrelative : relativePath scope url = some path.toList) (hcanonical : canonicalPath path = true)
    (hreserved : reservedPath path = false) (hplain : hasScheme path = false)
    (htypes : typesPath path = false) :
    requestFromUrl ports scope url = viewRequest url (scope.href ++ path) := by
  have hsegments : (path.toList.splitOn '/').filter (fun segment ↦ segment != []) =
      path.toList.splitOn '/' := filter_segments hcanonical
  have hlocal : String.ofList (['/'].intercalate (path.toList.splitOn '/')) = path := by
    rw [List.intercalate_splitOn, String.ofList_toList]
  have hnotReserved (rest : List Char) : path.toList ≠ "bdp/".toList ++ rest := by
    intro heq
    rw [reservedPath, heq, isPrefixOf_append, Bool.or_true] at hreserved
    cases hreserved
  have hnotBdp : path.toList ≠ "bdp".toList := by
    intro heq
    rw [reservedPath, String.toList_injective heq] at hreserved
    cases hreserved
  have hnotTypes (rest : List Char) : path.toList ≠ "types/".toList ++ rest := by
    intro heq
    rw [typesPath, heq, isPrefixOf_append] at htypes
    cases htypes
  have hresolved : resolvedIdentity (resolveCanonicalLocalResourceId scope path) =
      .ok (scope.href ++ path) := by
    rw [resolveCanonicalLocalResourceId_ok hcanonical hreserved hplain]
    rfl
  unfold requestFromUrl
  rw [hrelative]
  simp only [hsegments, hlocal]
  rw [if_neg (show path.toList ≠ "bdp/beads".toList from hnotReserved "beads".toList),
    if_neg (show path.toList ≠ "bdp/links".toList from hnotReserved "links".toList),
    if_neg (show path.toList ≠ "types/".toList from hnotTypes [])]
  obtain ⟨head, tail, hsplit⟩ := List.exists_cons_of_ne_nil (List.splitOn_ne_nil '/' path.toList)
  have hhead := splitOn_eq_cons hsplit
  rw [hsplit, if_neg, if_pos, if_neg (not_not.mpr rfl), hresolved, Except.ok_bind]
  · refine ⟨by simp, fun hbdp ↦ ?_⟩
    obtain rfl := Option.some.inj hbdp
    obtain ⟨-, heq⟩ | ⟨-, rest, heq⟩ := hhead
    · exact hnotBdp heq
    · exact hnotReserved rest heq
  · rintro ⟨hfirst, hlength⟩
    obtain rfl := Option.some.inj hfirst
    obtain ⟨rfl, -⟩ | ⟨-, rest, heq⟩ := hhead
    · simp at hlength
    · exact hnotTypes rest heq

theorem requestFromUrl_resource (hcanonical : canonicalPath path = true)
    (hreserved : reservedPath path = false) (hplain : hasScheme path = false)
    (htypes : typesPath path = false) :
    requestFromUrl ports scope (resourceUrl scope path parameters) =
      viewRequest (resourceUrl scope path parameters) (scope.href ++ path) :=
  requestFromUrl_path ports relativePath_resourceUrl hcanonical hreserved hplain htypes

theorem classifyAliasPath_resource (halias : aliasPath path = none) :
    classifyAliasPath scope (resourceUrl scope path parameters) = .ok none := by
  unfold aliasPath at halias
  rw [Option.map_eq_none_iff] at halias
  unfold classifyAliasPath
  rw [relativePath_resourceUrl, Option.bind_some, halias]

/-- A canonical path that the server accepts resolves to the Scope followed by the path exactly when
the path does not start like an absolute URL. -/
theorem resolveCanonicalLocalResourceId_eq_iff {uri : String}
    (h : resolveCanonicalLocalResourceId scope path = .ok uri) :
    uri = scope.href ++ path ↔ hasScheme path = false := by
  unfold resolveCanonicalLocalResourceId at h
  rw [check_bind_eq_ok, check_bind_eq_ok, check_bind_eq_ok, require_eq_ok] at h
  rw [← UrlPath.Scope.resolve_eq_append_iff, h.2.2.2, Option.some.injEq]

end Paths

section Runs

variable {config : GraphConfiguration} {plane : ReadPlane} {graph : Graph} {past : List Graph}
variable {row : StoredResource} {key : String}

theorem GraphRun.rows_checked {admits : MemberContext → ResourceMutation → Prop} {P : String → Prop}
    (plain : ∀ context mutation, admits context mutation → PlainCreation config context mutation)
    (checked : ∀ context mutation, admits context mutation → mutation.creating = true →
      ∀ path, CheckedPath config context mutation path → P path)
    (run : GraphRun config admits past graph)
    (hrow : graph.resources[key]? = some row) : P key := by
  induction run generalizing key row with
  | empty => simp [Graph.empty] at hrow
  | mutated context mutation evaluation run captured admitted step ih =>
    have hsound := (run.mono plain).sound
    obtain hsame | ⟨prepared, versions, hstep⟩ :=
      hsound.memberStep captured (plain _ _ admitted) step
    · rw [hsame] at hrow
      exact ih hrow
    obtain ⟨rfl, -⟩ | ⟨-, -, -, old, -, -, -, -, -, hold, -⟩ | ⟨-, hold, -⟩ := hstep.row_cases hrow
    · obtain ⟨hcreating, hcreated⟩ | ⟨-, name, record, hfound⟩ :=
        mutationSubject_spec hstep.evaluated.isPrepared.subject
      · exact checked _ _ admitted hcreating _ ((checkedPath_iff hcreated).mpr rfl)
      · obtain ⟨-, old, hold, -⟩ := hfound.row hstep.consistent hstep.reads
        exact ih hold
    · exact ih hold
    · exact ih hold
  | aliased context mutation evaluation run step ih =>
    rw [(applyAlias_tables step.2).1] at hrow
    exact ih hrow
  | unchanged run ih => exact ih hrow

/-- The route takes a path for a Resource. -/
structure RoutedPath (scope : Scope) (plane : ReadPlane) (path : String) : Prop where
  types : typesPath path = false
  unaliased : aliasPath path = none
  described : ∀ parameters ∈ [[], propertiesView],
    (resourceUrl scope path parameters).href ≠ plane.serviceDescription

/-- A member whose creation takes a path that the route takes for a Resource. -/
structure Routable (config : GraphConfiguration) (plane : ReadPlane) (context : MemberContext)
    (mutation : ResourceMutation) : Prop where
  keeps : KeepsPlane config plane.aliasesScope context mutation
  routed : mutation.creating = true → ∀ path, CheckedPath config context mutation path →
    RoutedPath config.scope plane path

/-- A record is read at the URL of its path, with its own revision as entity tag, and so are its
properties. -/
structure ReadAtUrl (config : GraphConfiguration) (plane : ReadPlane) (graph : Graph)
    (context : MemberContext) (path : String) (record : ResourceRecord) : Prop where
  named : record.id = config.scope.href ++ path
  request : requestFromUrl plane.ports config.scope (resourceUrl config.scope path []) =
    .ok (.resource .resource record.id)
  full : readRoute plane (context.options config) (graph.view config context)
      (resourceUrl config.scope path []) =
    .ok (.data (.record record) (some (plane.entityTag record.fields.revision)))
  properties : readRoute plane (context.options config) (graph.view config context)
      (resourceUrl config.scope path propertiesView) =
    .ok (.data (.properties record.fields.properties record.fields.revision)
      (some (plane.entityTag record.fields.revision)))

section

variable (h : graph.Checked config plane)
include h

section

variable (hrow : graph.resources[key]? = some row)
include hrow

theorem Graph.Checked.pointRead_ok {context : MemberContext}
    (hvisible : isResourceVisible (context.options config) (graph.view config context) row.body =
      .ok true) :
    pointRead plane (context.options config) (graph.view config context) .resource
      (config.scope.href ++ key) = .ok row.body := by
  have hslice : localSlice (context.options config) (config.scope.href ++ key) = key :=
    sliceScope_append key
  unfold pointRead
  rw [hslice, h.graphPoint_ok, hrow, Option.map_some]
  simp only [integrity, Except.mapError, Except.ok_bind, require_some, h.graphVisible_ok hrow hvisible]
  rw [check_of (show disagrees .resource row.body = false from rfl)]
  rfl

theorem Graph.Checked.validIdentity :
    validateLocalResourceIdentity config.scope (config.scope.href ++ key) = .ok () := by
  obtain ⟨hcanonical, hreserved⟩ := h.named.canonical key row hrow
  unfold validateLocalResourceIdentity
  rw [UrlPath.Scope.localPath_append, require_some, Except.ok_bind,
    resolveCanonicalLocalResourceId_ok hcanonical hreserved (h.plain hrow)]
  exact check_of rfl

theorem Graph.Checked.readRoute_eq {context : MemberContext}
    (hrouted : RoutedPath config.scope plane key) {parameters : List (String × String)}
    (hparameters : parameters ∈ [[], propertiesView]) :
    readRoute plane (context.options config) (graph.view config context)
        (resourceUrl config.scope key parameters) =
      respond (do
        let request ← viewRequest (resourceUrl config.scope key parameters)
          (config.scope.href ++ key)
        let result ← performRead plane (context.options config) (graph.view config context) request
        pure (.data result (observedTag plane result))) := by
  obtain ⟨hcanonical, hreserved⟩ := h.named.canonical key row hrow
  have hrequest : requestFromUrl plane.ports config.scope (resourceUrl config.scope key parameters) =
      viewRequest (resourceUrl config.scope key parameters) (config.scope.href ++ key) :=
    requestFromUrl_resource plane.ports hcanonical hreserved (h.plain hrow) hrouted.types
  have haliasRoute : aliasRoute plane (context.options config) (graph.view config context)
      (resourceUrl config.scope key parameters) = .ok none := by
    unfold aliasRoute
    change (classifyAliasPath config.scope _ >>= fun _ ↦ _) = _
    rw [classifyAliasPath_resource hrouted.unaliased, Except.ok_bind]
    rfl
  have hpathname : (resourceUrl config.scope key parameters).pathname ≠
      UrlPath.Scope.directoryPath config.scope.directories := by
    intro heq
    have hempty : key.toList = [] := by
      have hlength := congrArg List.length heq
      simp only [resourceUrl, List.length_append] at hlength
      exact List.length_eq_zero_iff.mp (by omega)
    rw [canonicalPath, hempty] at hcanonical
    cases hcanonical
  unfold readRoute
  rw [check_of (show (resourceUrl config.scope key parameters).origin =
      (context.options config).scope.origin from rfl), Except.ok_bind, haliasRoute, Except.ok_bind]
  refine congrArg respond ?_
  change (if (resourceUrl config.scope key parameters).pathname =
      UrlPath.Scope.directoryPath config.scope.directories then _ else _) = _
  rw [if_neg hpathname, if_neg (hrouted.described parameters hparameters)]
  change (requestFromUrl plane.ports config.scope _ >>= fun _ ↦ _) = _
  rw [hrequest]

end

end

/-- In a run whose creations the route takes for Resources, every live visible Resource is read at its
own URL, and the paths that the server accepts name different URLs unless they start like one. -/
theorem read_addressable
    (aliases : ∀ path, canonicalPath path = true →
      plane.aliasesScope (config.scope.href ++ path) = true)
    (run : GraphRun config (Routable config plane) past graph)
    (readable : ∀ (key : String) (row : StoredResource), graph.resources[key]? = some row →
      config.readable row.body = true) :
    (∀ (context : MemberContext) (path : String) (row : StoredResource),
        graph.resources[path]? = some row →
        isResourceVisible (context.options config) (graph.view config context) row.body = .ok true →
        ReadAtUrl config plane graph context path row.body) ∧
      (∀ path uri, resolveCanonicalLocalResourceId config.scope path = .ok uri →
        (uri = config.scope.href ++ path ↔ hasScheme path = false)) ∧
      ∀ path other uri, resolveCanonicalLocalResourceId config.scope path = .ok uri →
        resolveCanonicalLocalResourceId config.scope other = .ok uri → hasScheme path = false →
        hasScheme other = false → path = other := by
  refine ⟨?_, fun path uri h ↦ resolveCanonicalLocalResourceId_eq_iff h, ?distinct⟩
  case distinct =>
    intro path other uri hpath hother hplain hplain'
    have huri := (resolveCanonicalLocalResourceId_eq_iff hpath).mpr hplain
    have huri' := (resolveCanonicalLocalResourceId_eq_iff hother).mpr hplain'
    exact (String.append_right_inj _).mp (huri.symm.trans huri')
  intro context path row hrow hvisible
  have hkeeps := run.mono fun _ _ h ↦ h.keeps
  have hplain := hkeeps.mono fun _ _ h ↦ h.plain
  have h : graph.Checked config plane :=
    { consistent := hplain.sound.consistent, owned := hplain.owned.1, named := hkeeps.named, aliases
      readable }
  have hrouted : RoutedPath config.scope plane path :=
    run.rows_checked (fun _ _ h ↦ h.keeps.plain) (fun _ _ h ↦ h.routed) hrow
  have hid := (h.consistent.keyed path row hrow).2
  obtain ⟨hcanonical, hreserved⟩ := h.named.canonical path row hrow
  have hvalid := h.validIdentity hrow
  have hread := h.pointRead_ok hrow hvisible
  constructor
  case named => exact hid
  case request =>
    rw [requestFromUrl_resource plane.ports hcanonical hreserved (h.plain hrow) hrouted.types, hid]
    rfl
  case full =>
    rw [h.readRoute_eq hrow hrouted List.mem_cons_self]
    change respond (performRead plane (context.options config) (graph.view config context)
      (.resource .resource (config.scope.href ++ path)) >>= fun _ ↦ _) = _
    unfold performRead
    change respond ((validateLocalResourceIdentity config.scope (config.scope.href ++ path) >>=
      fun _ ↦ (pointRead plane _ _ .resource _).map _) >>= fun _ ↦ _) = _
    rw [hvalid, Except.ok_bind, hread]
    rfl
  case properties =>
    rw [h.readRoute_eq hrow hrouted (List.mem_cons_of_mem _ List.mem_cons_self)]
    change respond (performRead plane (context.options config) (graph.view config context)
      (.properties .resource (config.scope.href ++ path)) >>= fun _ ↦ _) = _
    unfold performRead
    change respond ((validateLocalResourceIdentity config.scope (config.scope.href ++ path) >>=
      fun _ ↦ (pointRead plane _ _ .resource _).map _) >>= fun _ ↦ _) = _
    rw [hvalid, Except.ok_bind, hread]
    rfl

end Runs

section Sample

def samplePlane : ReadPlane :=
  { ports :=
      { canonicalTypeId := hasScheme, isUri := hasScheme
        insideScope := fun uri ↦ (sampleScope.localPath uri).isSome, hasCredentials := fun _ ↦ false }
    aliasesScope := aliasesSample, types := [noteType, citesType, bookType]
    conforms := fun type expected ↦ type == expected, canReadType := fun _ ↦ true
    control := fun _ ↦ none, serviceDescription := "https://h/bdp.json"
    entityTag := fun revision ↦ "W/" ++ revision }

theorem routable_sample {store : StoreKind} {mutation : ResourceMutation} {id : String}
    (hid : mutation.suppliedIdentity = some id) (hplain : hasScheme id = false)
    (hreserved : reservedPath id = false)
    (hlocal : mutation.beadReferences.all (fun reference ↦ !hasScheme reference) = true)
    (hrouted : RoutedPath sampleScope samplePlane id) :
    Routable (sampleConfiguration store) samplePlane sampleContext mutation := by
  refine ⟨keepsPlane_sample hid hplain hreserved hlocal, fun _ path hchecked ↦ ?_⟩
  rw [checkedPath_sample hid hplain hchecked]
  exact hrouted

theorem citedBooks_routable (store : StoreKind) :
    GraphRun (sampleConfiguration store) (Routable (sampleConfiguration store) samplePlane)
      [twoBooks, firstBook, Graph.empty] citedBooks := by
  have hrouted {id : String} (hmem : id ∈ ["a", "c", "l"]) : RoutedPath sampleScope samplePlane id := by
    fin_cases hmem <;> exact ⟨rfl, rfl, by decide⟩
  have first : GraphRun (sampleConfiguration store)
      (Routable (sampleConfiguration store) samplePlane) [Graph.empty] firstBook := by
    refine .mutated sampleContext (createBook "a") (bookEvaluation "a" 0) .empty
      (captured_nothing _ _ _) (routable_sample rfl rfl rfl rfl (hrouted (by simp))) ?_
    cases store <;> exact ⟨rfl, rfl⟩
  have second : GraphRun (sampleConfiguration store)
      (Routable (sampleConfiguration store) samplePlane) [firstBook, Graph.empty] twoBooks := by
    refine .mutated sampleContext (createBook "c") (bookEvaluation "c" 2) first
      (captured_nothing _ _ _) (routable_sample rfl rfl rfl rfl (hrouted (by simp))) ?_
    cases store <;> exact ⟨rfl, rfl⟩
  refine .mutated sampleContext (createCitation "l" "a" "c") (citationEvaluation "l" "l" "a" "c" 4)
    second (captured_nothing _ _ _) (routable_sample rfl rfl rfl rfl (hrouted (by simp))) ?_
  cases store <;> exact ⟨rfl, rfl⟩

end Sample

theorem read_addressable_of_books :
    ReadAtUrl (sampleConfiguration .transaction) samplePlane citedBooks sampleContext "a"
      (bookRow "a" 5 [sampleCitation "l" "a" "c" 4]).body :=
  (read_addressable (fun path _ ↦ aliasesSample_append .transaction path)
    (citedBooks_routable .transaction) fun _ _ _ ↦ rfl).1 sampleContext "a" _ rfl rfl

/-- A note alone, under a path that creation admits. -/
def noteAt (path : String) : Graph := { Graph.empty.insertRow (noteRow path 0) with revisions := 2 }

/-- The note `alias/a` is read at its own URL, but its properties are not found there: an alias URL
takes no query. The notes `types/a` and `bdp/a` are not served at all, and the path `https:a` resolves
to the URL of another one. -/
theorem read_not_addressable :
    (∀ entry ∈ [("alias/a", ReadProblem.resourceNotFound), ("types/a", .invalidParameter),
        ("bdp/a", .resourceNotFound)],
      admittedIdentity sampleScope entry.1 = true ∧
        GraphRun (sampleConfiguration .transaction) (fun _ _ ↦ True) [Graph.empty] (noteAt entry.1) ∧
        (noteAt entry.1).resources[entry.1]? = some (noteRow entry.1 0) ∧
        isResourceVisible (sampleContext.options (sampleConfiguration .transaction))
            ((noteAt entry.1).view (sampleConfiguration .transaction) sampleContext)
            (noteRow entry.1 0).body = .ok true ∧
        readRoute samplePlane (sampleContext.options (sampleConfiguration .transaction))
            ((noteAt entry.1).view (sampleConfiguration .transaction) sampleContext)
            (resourceUrl sampleScope entry.1 propertiesView) = .ok (.problem entry.2) ∧
        ¬ ReadAtUrl (sampleConfiguration .transaction) samplePlane (noteAt entry.1) sampleContext
          entry.1 (noteRow entry.1 0).body) ∧
      resolveCanonicalLocalResourceId sampleScope "https:a" = .ok "https://h/a" := by
  have hrun (path : String) (step : Graph.empty.Mutated (sampleConfiguration .transaction) sampleContext
      (createNote path) (noteEvaluation path path 0) (noteAt path)) :
      GraphRun (sampleConfiguration .transaction) (fun _ _ ↦ True) [Graph.empty] (noteAt path) :=
    .mutated sampleContext (createNote path) _ .empty (captured_nothing _ _ _) trivial step
  have hnot {path : String} {problem : ReadProblem} (h :
      readRoute samplePlane (sampleContext.options (sampleConfiguration .transaction))
        ((noteAt path).view (sampleConfiguration .transaction) sampleContext)
        (resourceUrl sampleScope path propertiesView) = .ok (.problem problem)) :
      ¬ ReadAtUrl (sampleConfiguration .transaction) samplePlane (noteAt path) sampleContext path
        (noteRow path 0).body :=
    fun hread ↦ nomatch h.symm.trans hread.properties
  refine ⟨fun entry hentry ↦ ?_, rfl⟩
  simp only [List.mem_cons, List.not_mem_nil, or_false] at hentry
  rcases hentry with rfl | rfl | rfl
  · exact ⟨rfl, hrun _ ⟨rfl, rfl⟩, rfl, rfl, rfl, hnot rfl⟩
  · exact ⟨rfl, hrun _ ⟨rfl, rfl⟩, rfl, rfl, rfl, hnot rfl⟩
  · exact ⟨rfl, hrun _ ⟨rfl, rfl⟩, rfl, rfl, rfl, hnot rfl⟩

end Bdp.Evaluator
