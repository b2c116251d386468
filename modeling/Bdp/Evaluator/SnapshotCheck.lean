import Bdp.Evaluator.OwnedRuns

/-!
# The graph check of a snapshot

A snapshot reads every row once more and compares the two copies of each owned Link, the inventories
of owned Types, and the Beads that Links lead to. The check passes on every graph of a run in which
no creation spells a scheme behind the Scope or takes a path that is reserved for the protocol.
-/

namespace Bdp.Evaluator

open Recovery (ResourceKind ResourceShape)
open Transaction (Reference)
open UrlPath (Scope hasScheme canonicalPath)
open Bdp.Except (ok_bind)
open List (mem_map mem_filter)

section Outcomes

theorem mapError_eq_ok {ε δ α : Type} {f : ε → δ} {outcome : Except ε α} {value : α} :
    outcome.mapError f = .ok value ↔ outcome = .ok value := by
  cases outcome <;> simp [Except.mapError]

end Outcomes

section Check

/-- The local paths that the protocol keeps for itself. -/
def reservedPath (localId : String) : Bool :=
  localId == "bdp" || "bdp/".toList.isPrefixOf localId.toList

/-- The URL of the local path of a Bead or a Link. -/
def resolveCanonicalLocalResourceId (scope : Scope) (localId : String) : Except String String := do
  check (localId.toList.contains '?' = false ∧ localId.toList.contains '#' = false)
    "local Resource ID must not contain query or fragment"
  check (canonicalPath localId = true) "bead local ID has a noncanonical segment"
  check (reservedPath localId = false)
    "local Resource ID must not occupy the reserved BDP protocol namespace"
  require (scope.resolve localId) "Invalid URL"

def validateServerLocalResourceId (scope : Scope) (id : String) : Except String Unit := do
  let localId ← require (scope.localPath id) "ScopePort bead ID escaped the Scope"
  let resolved ← resolveCanonicalLocalResourceId scope localId
  check (resolved = id) "ScopePort bead ID is not canonical"

/-- Whether an endpoint claims a Bead of the Scope, which it then has to spell canonically. -/
def validateServerEndpoint (scope : Scope) (aliasesScope : String → Bool) (endpoint : Reference) :
    Except String Bool :=
  if aliasesScope endpoint.uri then
    (validateServerLocalResourceId scope endpoint.uri).map fun _ ↦ true
  else .ok false

variable (config : GraphConfiguration) (aliasesScope : String → Bool) (graph : Graph)

/-- What follows as many characters as the Scope has. -/
def sliceScope (id : String) : String :=
  String.ofList (id.toList.drop config.scope.href.toList.length)

def recordAt (id : String) : Option ResourceRecord :=
  graph.resources[sliceScope config id]?.map StoredResource.body

/-- The Links with a source in the Scope, under the local path of that source. -/
def outgoingIndex : Except String (List (String × LinkRecord)) := do
  let captured ← (graph.resources.toList.map Prod.snd).mapM fun row ↦
    match row.body with
    | .bead _ => .ok none
    | .link link => do
      let inScope ← validateServerEndpoint config.scope aliasesScope link.source
      pure (if inScope then some (sliceScope config link.source.uri, link) else none)
  pure captured.reduceOption

/-- The identities of the owned Links of a Bead, by Type. -/
def expectedInventory (declarations : OwnedOutgoingDeclarations) (outgoing : List LinkRecord) :
    List (String × List String) :=
  ((outgoing.filter fun link ↦ declaresOwned declarations link.type).foldl
    (Grouping.put fun link ↦ link.type) (declarations.names.map fun name ↦ (name, []))).map fun entry ↦
      (entry.1, entry.2.map fun link ↦ link.id)

/-- Compare the list of a Bead with what is expected. Members of records are compared in order, where
the source takes any order. -/
def checkInventory (bead : BeadRecord) (entries : OwnedLinks)
    (expected : List (String × List String)) : Except String Unit := do
  check ("\n".intercalate (Grouping.sortBy (fun type ↦ type) (entries.map Prod.fst)) =
      "\n".intercalate (Grouping.sortBy (fun type ↦ type) (expected.map Prod.fst)))
    "owned plane Types"
  expected.forM fun entry ↦ do
    let links ← require (entries.lookup entry.1) "inline Links are undefined"
    check ((links.map fun link ↦ link.id) = Grouping.sortBy (fun id ↦ id) entry.2)
      "owned inventory mismatch"
    links.forM fun link ↦
      check (recordAt config graph link.id = some (.link link) ∧ link.source.uri = bead.id)
        "owned Link differs from first-class record"

def checkGraph (outgoing : List (String × LinkRecord)) (id : String) (record : ResourceRecord) :
    Except String Unit := do
  let descriptor ← require ((config.descriptor record.fields.type).filter fun descriptor ↦
    descriptor.describes.kind == record.kind) "unknown or wrong-kind Type"
  match record with
  | .bead bead =>
    match descriptor.ownsOutgoing with
    | none => check (bead.ownedLinks = none) "unexpected owned plane"
    | some declarations => do
      let entries ← require bead.ownedLinks "owned plane Types"
      checkInventory config graph bead entries (expectedInventory declarations
        ((outgoing.filter fun entry ↦ entry.1 == id).map Prod.snd))
  | .link link => [link.source, link.target].forM fun endpoint ↦ do
      let inScope ← validateServerEndpoint config.scope aliasesScope endpoint
      check (inScope = true → (recordAt config graph endpoint.uri).any (fun target ↦
        target.kind == .bead) = true) "missing in-Scope endpoint"

/-- The check of all records of a snapshot. -/
def checkSnapshot : Except String Unit := do
  let outgoing ← outgoingIndex config aliasesScope graph
  graph.resources.toList.forM fun entry ↦
    checkGraph config aliasesScope graph outgoing entry.1 entry.2.body

end Check

section Passing

variable {config : GraphConfiguration} {aliasesScope : String → Bool} {graph after : Graph}

/-- Rows stand under canonical paths that the protocol does not reserve, and references that are not
spelled like the Scope do not alias it. -/
structure Graph.Named (config : GraphConfiguration) (aliasesScope : String → Bool) (graph : Graph) :
    Prop where
  canonical : ∀ (key : String) (row : StoredResource), graph.resources[key]? = some row →
    canonicalPath key = true ∧ reservedPath key = false
  external : ∀ (key : String) (row : StoredResource), graph.resources[key]? = some row →
    ∀ reference ∈ ends row.body, config.scope.localPath reference.uri = none →
      aliasesScope reference.uri = false

theorem resolveCanonicalLocalResourceId_ok {scope : Scope} {path : String}
    (hcanonical : canonicalPath path = true) (hreserved : reservedPath path = false)
    (hplain : hasScheme path = false) :
    resolveCanonicalLocalResourceId scope path = .ok (scope.href ++ path) := by
  have habsent (letter : Char) (hliteral : UrlPath.isLiteral letter = false)
      (hescape : letter ≠ '%') (hslash : letter ≠ '/')
      (hdigits : ∀ value < 16, UrlPath.upperHex value ≠ letter) :
      path.toList.contains letter = false := by
    have hnot := UrlPath.not_mem_of_canonicalPath hcanonical hliteral hescape hslash hdigits
    rw [Bool.eq_false_iff]
    exact fun h ↦ hnot (List.contains_iff_mem.mp h)
  unfold resolveCanonicalLocalResourceId
  rw [check_of ⟨habsent '?' (by decide) (by decide) (by decide) (by decide),
      habsent '#' (by decide) (by decide) (by decide) (by decide)⟩, check_of hcanonical,
    check_of hreserved, UrlPath.Scope.resolve_plain hplain]
  rfl

variable {row : StoredResource} {key : String}

theorem validateServerEndpoint_ok (h : Graph.Consistent config.scope graph)
    (hn : graph.Named config aliasesScope)
    (haliases : ∀ path, canonicalPath path = true → aliasesScope (config.scope.href ++ path) = true)
    (hrow : graph.resources[key]? = some row)
    {reference : Reference} (hmem : reference ∈ ends row.body) :
    validateServerEndpoint config.scope aliasesScope reference =
      .ok (config.scope.localPath reference.uri).isSome := by
  unfold validateServerEndpoint
  cases hpath : config.scope.localPath reference.uri with
  | none =>
    rw [hn.external key row hrow reference hmem hpath]
    rfl
  | some name =>
    obtain ⟨found, hfound, -⟩ := h.linked key row hrow name
      (List.mem_filterMap.mpr ⟨reference, hmem, hpath⟩)
    obtain ⟨hcanonical, hreserved⟩ := hn.canonical name found hfound
    have hplain := h.plain name (Table.mem_of_lookup (h.committed name found hfound))
    have huri := UrlPath.Scope.localPath_eq_some.mp hpath
    rw [huri, haliases name hcanonical, if_pos rfl]
    unfold validateServerLocalResourceId
    rw [UrlPath.Scope.localPath_append, require_some, ok_bind,
      resolveCanonicalLocalResourceId_ok hcanonical hreserved hplain, ok_bind, check_of rfl]
    rfl

theorem sliceScope_append (path : String) :
    sliceScope config (config.scope.href ++ path) = path := by
  rw [sliceScope, String.toList_append, List.drop_left, String.ofList_toList]

theorem recordAt_append (path : String) : recordAt config graph (config.scope.href ++ path) =
    graph.resources[path]?.map StoredResource.body := by
  rw [recordAt, sliceScope_append]

/-- The Links that are indexed under a Bead, picked row by row. -/
def indexedLink (scope : Scope) (row : StoredResource) : Option (String × LinkRecord) :=
  match row.body with
  | .bead _ => none
  | .link link => (scope.localPath link.source.uri).map fun name ↦ (name, link)

section

variable (h : Graph.Consistent config.scope graph)
include h

theorem outgoingIndex_ok (hn : graph.Named config aliasesScope)
    (haliases : ∀ path, canonicalPath path = true →
      aliasesScope (config.scope.href ++ path) = true) :
    outgoingIndex config aliasesScope graph =
      .ok ((graph.resources.toList.map Prod.snd).filterMap (indexedLink config.scope)) := by
  unfold outgoingIndex
  rw [mapM_ok (g := indexedLink config.scope), ok_bind, List.reduceOption, List.filterMap_map]
  · rfl
  · intro row hrow
    obtain ⟨entry, hentry, rfl⟩ := mem_map.mp hrow
    have hlookup := Table.mem_toList.mp hentry
    unfold indexedLink
    cases hbody : entry.2.body with
    | bead bead => rfl
    | link link =>
      have hvalid := validateServerEndpoint_ok h hn haliases hlookup
        (show link.source ∈ ends entry.2.body by rw [hbody]; exact List.mem_cons_self)
      simp only [hvalid, ok_bind]
      cases hpath : config.scope.localPath link.source.uri with
      | none => rfl
      | some name =>
        rw [UrlPath.Scope.localPath_eq_some.mp hpath, sliceScope_append]
        rfl

theorem outgoing_spec (id : String) :
    let outgoing := ((((graph.resources.toList.map Prod.snd).filterMap
      (indexedLink config.scope)).filter fun entry ↦ entry.1 == id).map Prod.snd)
    (outgoing.map fun link ↦ link.id).Nodup ∧
      ∀ link, link ∈ outgoing ↔ LeadsFrom config.scope graph id link := by
  have hpicked {row : StoredResource} {entry : String × LinkRecord} :
      indexedLink config.scope row = some entry ↔
        row.body = .link entry.2 ∧ config.scope.localPath entry.2.source.uri = some entry.1 := by
    unfold indexedLink
    cases row.body with
    | bead bead => simp
    | link link =>
      rw [Option.map_eq_some_iff, ResourceRecord.link.injEq]
      constructor
      · rintro ⟨name, hname, rfl⟩
        exact ⟨rfl, hname⟩
      · rintro ⟨rfl, hname⟩
        exact ⟨entry.1, hname, rfl⟩
  refine ⟨?_, fun link ↦ ?_⟩
  · have hids : ((graph.resources.toList.map Prod.snd).map fun row ↦ row.body.id) =
        (graph.resources.toList.map Prod.fst).map fun id ↦ config.scope.href ++ id := by
      rw [List.map_map, List.map_map]
      refine List.map_congr_left fun entry hentry ↦ ?_
      exact (h.keyed entry.1 entry.2 (Table.mem_toList.mp hentry)).2
    have hnodup : ((graph.resources.toList.map Prod.snd).map fun row ↦ row.body.id).Nodup := by
      rw [hids]
      exact (Table.toList_keys_nodup _).map fun _ _ heq ↦ (String.append_right_inj _).mp heq
    have hnames (row : StoredResource) (entry : String × LinkRecord)
        (hentry : indexedLink config.scope row = some entry) : entry.2.id = row.body.id := by
      rw [(hpicked.mp hentry).1]
      rfl
    have hindexed := Grouping.sublist_filterMap hnames (graph.resources.toList.map Prod.snd)
    rw [List.map_map]
    exact (hnodup.sublist hindexed).sublist (List.filter_sublist.map _)
  · rw [mem_map]
    constructor
    · rintro ⟨entry, hentry, rfl⟩
      obtain ⟨hindexed, hid⟩ := mem_filter.mp hentry
      obtain ⟨row, hrow, hpick⟩ := List.mem_filterMap.mp hindexed
      obtain ⟨stored, hstored, rfl⟩ := mem_map.mp hrow
      obtain ⟨hbody, hpath⟩ := hpicked.mp hpick
      exact ⟨stored.1, stored.2, Table.mem_toList.mp hstored, hbody, eq_of_beq hid ▸ hpath⟩
    · rintro ⟨key, row, hrow, hbody, hpath⟩
      refine ⟨(id, link), mem_filter.mpr ⟨List.mem_filterMap.mpr ⟨row, ?_, ?_⟩, ?_⟩, rfl⟩
      · exact mem_map.mpr ⟨(key, row), Table.mem_toList.mpr hrow, rfl⟩
      · exact hpicked.mpr ⟨hbody, hpath⟩
      · exact beq_self_eq_true id

theorem checkInventory_ok {bead : BeadRecord} {declarations : OwnedOutgoingDeclarations}
    {entries : OwnedLinks} {outgoing : List LinkRecord}
    (hrow : graph.resources[key]? = some row) (hbody : row.body = .bead bead)
    (hexact : OwnsExactly declarations (LeadsFrom config.scope graph key) entries)
    (hnodup : (outgoing.map fun link ↦ link.id).Nodup)
    (hmem : ∀ link, link ∈ outgoing ↔ LeadsFrom config.scope graph key link) :
    checkInventory config graph bead entries (expectedInventory declarations outgoing) = .ok () := by
  let owned := outgoing.filter fun link ↦ declaresOwned declarations link.type
  let groups := owned.foldl (Grouping.put fun link ↦ link.type)
    (declarations.names.map fun name ↦ (name, []))
  have hnamed : (declarations.names.map fun name ↦ (name, ([] : List LinkRecord))).map Prod.fst =
      declarations.names := by
    rw [List.map_map]
    exact List.map_id _
  have hkeys : (expectedInventory declarations outgoing).map Prod.fst = groups.map Prod.fst := by
    rw [expectedInventory, List.map_map]
    rfl
  have htypes (type : String) : type ∈ entries.map Prod.fst ↔ type ∈ groups.map Prod.fst := by
    rw [hexact.types, Grouping.mem_keys_foldl, hnamed]
    refine or_congr_right ?_
    constructor
    · rintro ⟨hdeclared, link, hlink, rfl⟩
      exact ⟨link, mem_filter.mpr ⟨(hmem link).mpr hlink, hdeclared⟩, rfl⟩
    · rintro ⟨link, hlink, rfl⟩
      obtain ⟨hlink, hdeclared⟩ := mem_filter.mp hlink
      exact ⟨hdeclared, link, (hmem link).mp hlink, rfl⟩
  have hgroupsNodup : (groups.map Prod.fst).Nodup := by
    refine Grouping.nodup_keys_foldl ?_
    rw [hnamed]
    exact declarations.distinct.filter _
  have hsorted : Grouping.sortBy (fun type ↦ type) (entries.map Prod.fst) =
      Grouping.sortBy (fun type ↦ type) (groups.map Prod.fst) := by
    refine Grouping.eq_sortBy ?_ hgroupsNodup fun type ↦ Grouping.mem_sortBy.trans (htypes type)
    refine Grouping.sortBy_strict ?_
    rw [List.map_id']
    exact hexact.nodup
  unfold checkInventory
  rw [hkeys, check_of (congrArg _ hsorted), ok_bind]
  refine forM_ok fun entry hentry ↦ ?_
  rw [expectedInventory] at hentry
  obtain ⟨group, hgroup, rfl⟩ := mem_map.mp hentry
  have hgroupLinks : group.2 = owned.filter fun link ↦ link.type = group.1 := by
    refine Grouping.mem_foldl_group ?_ hgroup
    intro empty hempty
    obtain ⟨name, -, rfl⟩ := mem_map.mp hempty
    rfl
  obtain ⟨⟨type, links⟩, hlinks, rfl⟩ :=
    mem_map.mp ((htypes group.1).mpr (mem_map.mpr ⟨group, hgroup, rfl⟩))
  obtain ⟨hstrict, hlinksMem⟩ := hexact.groups _ links hlinks
  rw [Grouping.lookup_of_mem_nodup hexact.nodup hlinks, require_some, ok_bind, check_of, ok_bind]
  · refine forM_ok fun link hlink ↦ check_of ?_
    obtain ⟨⟨id, stored, hstored, hstoredBody, hpath⟩, -⟩ := (hlinksMem link).mp hlink
    have hid := (h.keyed id stored hstored).2
    rw [hstoredBody] at hid
    have hbeadId := (h.keyed key row hrow).2
    rw [hbody] at hbeadId
    refine ⟨?_, (UrlPath.Scope.localPath_eq_some.mp hpath).trans hbeadId.symm⟩
    change recordAt config graph (ResourceRecord.link link).id = _
    rw [hid, recordAt_append, hstored, Option.map_some, hstoredBody]
  · refine Grouping.eq_sortBy ?_ ?_ fun id ↦ ?_
    · rw [List.pairwise_map]
      exact hstrict
    · rw [hgroupLinks]
      exact hnodup.sublist ((List.filter_sublist.trans List.filter_sublist).map _)
    · simp only [hgroupLinks, mem_map, owned, mem_filter, hlinksMem, hmem, decide_eq_true_eq]
      refine exists_congr fun link ↦ and_congr_left fun _ ↦ ?_
      constructor
      · rintro ⟨hleads, htype⟩
        exact ⟨⟨hleads, htype ▸ hexact.declared hlinks⟩, htype⟩
      · rintro ⟨⟨hleads, -⟩, htype⟩
        exact ⟨hleads, htype⟩

theorem checkSnapshot_ok (ho : graph.Owned config) (hn : graph.Named config aliasesScope)
    (haliases : ∀ path, canonicalPath path = true →
      aliasesScope (config.scope.href ++ path) = true) :
    checkSnapshot config aliasesScope graph = .ok () := by
  unfold checkSnapshot
  rw [outgoingIndex_ok h hn haliases, ok_bind]
  refine forM_ok fun entry hentry ↦ ?_
  have hrow := Table.mem_toList.mp hentry
  obtain ⟨-, descriptor, hdescriptor, hkind⟩ := ho.typed entry.1 entry.2 hrow
  unfold checkGraph
  rw [hdescriptor, Option.filter_some_pos (by rw [hkind]; exact beq_self_eq_true _), require_some,
    ok_bind]
  cases hbody : entry.2.body with
  | bead bead =>
    rw [hbody] at hdescriptor
    have hlists := ho.plane entry.1 entry.2 bead descriptor hrow hbody hdescriptor
    unfold ListsOwned at hlists
    cases howns : descriptor.ownsOutgoing with
    | none =>
      rw [howns] at hlists
      exact check_of hlists
    | some declarations =>
      rw [howns] at hlists
      obtain ⟨entries, hentries, hexact⟩ := hlists
      obtain ⟨hnodup, hmem⟩ := outgoing_spec h entry.1
      simp only [hentries, require_some, ok_bind]
      exact checkInventory_ok h hrow hbody hexact hnodup hmem
  | link link =>
    refine forM_ok fun endpoint hendpoint ↦ ?_
    have hmem : endpoint ∈ ends entry.2.body := by
      rw [hbody]
      exact hendpoint
    rw [validateServerEndpoint_ok h hn haliases hrow hmem, ok_bind]
    refine check_of fun hlocal ↦ ?_
    obtain ⟨name, hname⟩ := Option.isSome_iff_exists.mp hlocal
    obtain ⟨found, hfound, hbead⟩ := h.linked entry.1 entry.2 hrow name
      (List.mem_filterMap.mpr ⟨endpoint, hmem, hname⟩)
    rw [IsBeadRow, StoredResource.kind, h.shaped name found hfound, recordShape_kind] at hbead
    rw [UrlPath.Scope.localPath_eq_some.mp hname, recordAt_append, hfound, Option.map_some,
      Option.any_some, hbead]
    exact beq_self_eq_true _

end

end Passing

end Bdp.Evaluator
