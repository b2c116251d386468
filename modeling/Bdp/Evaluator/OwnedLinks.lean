import Bdp.Evaluator.Creation

/-!
# Owned Links

A Bead whose Type owns outgoing Links lists them inline. The same Links stand in their own rows, so
every mutation of an owned Link rewrites the list of its source, and every update of a Bead rewrites
its own. In a run of plain creations the two copies never differ.
-/

namespace Bdp.Evaluator

open Recovery (ResourceKind ResourceShape)
open Retained (JsonObject)
open Transaction (Reference)
open UrlPath (Scope hasScheme)
open List (mem_map mem_filter)

variable {type : String}

section Types

variable {options : ResourceEvaluationOptions} {tx : ResourceTransaction}

/-- The contract of an installed Type, compiled from its artifact. -/
def installedContract (options : ResourceEvaluationOptions) (tx : ResourceTransaction)
    (type : String) : Option InstalledResourceContract :=
  tx.installedTypes[type]?.bind (options.contracts type)

/-- An entry is the contract that is installed under its own name. -/
def IsInstalled (options : ResourceEvaluationOptions) (tx : ResourceTransaction)
    (entry : InstalledResourceContract) : Prop :=
  entry.descriptor.id ≠ "" ∧ installedContract options tx entry.descriptor.id = some entry

theorem gather_spec {fuel : ℕ} {gathered result : List InstalledResourceContract}
    {pending : List String} (h : gatherContracts options tx fuel gathered pending = .ok result)
    (hgathered : ∀ entry ∈ gathered, IsInstalled options tx entry) :
    (∀ entry ∈ result, IsInstalled options tx entry) ∧ (∀ entry ∈ gathered, entry ∈ result) ∧
      ∀ name ∈ pending, name ≠ "" → ∃ entry ∈ result, entry.descriptor.id = name := by
  induction fuel generalizing gathered pending with
  | zero => cases h
  | succ fuel ih =>
    cases pending with
    | nil =>
      obtain rfl := Except.ok.inj h
      exact ⟨hgathered, fun _ hentry ↦ hentry, fun _ hname ↦ nomatch hname⟩
    | cons name pending =>
      unfold gatherContracts at h
      split at h
      next hskip =>
        obtain ⟨hresult, hkept, hcovered⟩ := ih h hgathered
        refine ⟨hresult, hkept, fun other hother hne ↦ ?_⟩
        obtain rfl | hother := List.mem_cons.mp hother
        · obtain hempty | hany := hskip
          · exact absurd hempty hne
          · obtain ⟨entry, hentry, hid⟩ := List.any_eq_true.mp hany
            exact ⟨entry, hkept entry hentry, eq_of_beq hid⟩
        · exact hcovered other hother hne
      next hskip =>
        obtain ⟨entry, hentry, h⟩ := Except.bind_eq_ok.mp h
        rw [check_bind_eq_ok] at h
        obtain ⟨⟨hid, -⟩, h⟩ := h
        have hinstalled : IsInstalled options tx entry := by
          refine ⟨fun hempty ↦ hskip (.inl (hid ▸ hempty)), ?_⟩
          rw [hid]
          exact require_eq_ok.mp hentry
        obtain ⟨hresult, hkept, hcovered⟩ := ih h (by
          intro other hother
          obtain hother | hother := List.mem_append.mp hother
          · exact hgathered other hother
          · exact List.mem_singleton.mp hother ▸ hinstalled)
        refine ⟨hresult, fun other hother ↦ hkept other (List.mem_append_left _ hother),
          fun other hother hne ↦ ?_⟩
        obtain rfl | hother := List.mem_cons.mp hother
        · exact ⟨entry, hkept entry (List.mem_append_right _ List.mem_cons_self), hid⟩
        · exact hcovered other (List.mem_append_right _ hother) hne

theorem declaredType_spec {effective : List InstalledResourceContract}
    (h : contracts options tx type = .ok effective) :
    (∀ descriptor, declaredType type effective = some descriptor → type ≠ "") ∧
      (type ≠ "" → declaredType type effective =
        (installedContract options tx type).map InstalledResourceContract.descriptor ∧
        (declaredType type effective).isSome) := by
  unfold contracts at h
  obtain ⟨gathered, hgathered, h⟩ := Except.bind_eq_ok.mp h
  rw [check_bind_eq_ok, Except.pure_eq_ok_iff] at h
  obtain ⟨-, rfl⟩ := h
  obtain ⟨hinstalled, -, hcovered⟩ := gather_spec hgathered (by simp)
  have hfound {descriptor : TypeDescriptor} (hdeclared : declaredType type effective =
      some descriptor) : ∃ entry ∈ effective, entry.descriptor = descriptor ∧
        descriptor.id = type := by
    have hid := List.find?_some hdeclared
    obtain ⟨entry, hentry, hdescriptor⟩ := mem_map.mp (List.mem_of_find?_eq_some hdeclared)
    exact ⟨entry, hentry, hdescriptor, eq_of_beq hid⟩
  refine ⟨fun descriptor hdeclared ↦ ?_, fun hne ↦ ?_⟩
  · obtain ⟨entry, hentry, rfl, rfl⟩ := hfound hdeclared
    exact (hinstalled entry hentry).1
  · obtain ⟨entry, hentry, rfl⟩ := hcovered type List.mem_cons_self hne
    cases hdeclared : declaredType entry.descriptor.id effective with
    | none =>
      have hnone := List.find?_eq_none.mp hdeclared entry.descriptor
        (mem_map.mpr ⟨entry, hentry, rfl⟩)
      simp at hnone
    | some descriptor =>
      obtain ⟨other, hother, rfl, hid⟩ := hfound hdeclared
      have hcontract := (hinstalled other hother).2
      rw [hid] at hcontract
      rw [hcontract]
      exact ⟨rfl, rfl⟩

end Types

section Lists

variable {options : ResourceEvaluationOptions} {tx : ResourceTransaction} {graph : Graph}
  {scope : Scope}

/-- Entries that list exactly the owned Links, in groups by Type, ordered by identity within each
group, and within the maxima. -/
structure OwnsExactly (declarations : OwnedOutgoingDeclarations) (owned : LinkRecord → Prop)
    (entries : OwnedLinks) : Prop where
  nodup : (entries.map Prod.fst).Nodup
  types : ∀ type, type ∈ entries.map Prod.fst ↔ type ∈ declarations.names ∨
    declaresOwned declarations type = true ∧ ∃ link, owned link ∧ link.type = type
  groups : ∀ type links, (type, links) ∈ entries →
    (links.Pairwise fun left right ↦ left.id < right.id) ∧
      ∀ link, link ∈ links ↔ owned link ∧ link.type = type
  maxima : ∀ type links maximum, (type, links) ∈ entries →
    declarations.max type = some maximum → links.length ≤ maximum
  total : ∀ maximum, declarations.max "*" = some maximum →
    (entries.map fun entry ↦ entry.2.length).sum ≤ maximum

theorem le_of_exceeds {limit : Option ℕ} {value maximum : ℕ} (h : ¬ exceeds limit value = true)
    (hlimit : limit = some maximum) : value ≤ maximum := by
  subst hlimit
  simpa [exceeds] using h

variable {declarations : OwnedOutgoingDeclarations}

theorem declaresOwned_of_name
    (h : type ∈ declarations.names) : declaresOwned declarations type = true := by
  unfold declaresOwned
  cases hlookup : declarations.max type with
  | some maximum => rfl
  | none =>
    obtain ⟨declaration, hdeclaration, rfl⟩ := mem_map.mp (mem_filter.mp h).1
    have hne := List.lookup_eq_none_iff.mp hlookup declaration hdeclaration
    simp at hne

variable {replacement : Option LinkRecipe} {live : List PreparedLink} {removed : Option String}

theorem ownedLinks_spec {owner : String} {descriptor : TypeDescriptor}
    {entries : List (String × List PreparedLink)} (record : PreparedLink → LinkRecord)
    (hid : ∀ link, (record link).id = link.id) (htype : ∀ link, (record link).type = link.type)
    (hlive : liveLinks options tx owner replacement removed = .ok live)
    (hnodup : (live.map PreparedLink.id).Nodup)
    (h : ownedLinks options tx owner descriptor declarations replacement removed = .ok entries) :
    OwnsExactly declarations (fun link ↦ ∃ prepared ∈ live, record prepared = link)
      (entries.map fun entry ↦ (entry.1, entry.2.map record)) := by
  unfold ownedLinks at h
  rw [hlive, Except.ok_bind] at h
  extract_lets named computed at h
  obtain ⟨_, hmaxima, h⟩ := Except.bind_eq_ok.mp h
  split at h
  · exact absurd h diagnosticFailure_ne_ok
  next htotal =>
  obtain rfl := Except.pure_eq_ok_iff.mp h
  -- the groups before sorting
  let owned := live.filter fun link ↦ declaresOwned declarations link.type
  let groups := owned.foldl (Grouping.put PreparedLink.type) named
  have hcomputed : computed = groups.map fun entry ↦ (entry.1, sortLinks entry.2) := rfl
  have hnamedKeys : named.map Prod.fst = declarations.names := by
    simp only [named, List.map_map]
    exact List.map_id _
  have hgroupKeys : computed.map Prod.fst = groups.map Prod.fst := by
    rw [hcomputed, List.map_map]
    rfl
  have hkeys : (computed.map fun entry ↦ (entry.1, entry.2.map record)).map Prod.fst =
      groups.map Prod.fst := by
    rw [List.map_map, ← hgroupKeys]
    rfl
  have hgroup {type : String} {links : List PreparedLink} (hmem : (type, links) ∈ computed) :
      declaresOwned declarations type = true ∧
        links = sortLinks (owned.filter fun link ↦ link.type = type) := by
    rw [hcomputed] at hmem
    obtain ⟨entry, hentry, heq⟩ := mem_map.mp hmem
    obtain ⟨rfl, rfl⟩ := Prod.mk.inj heq
    refine ⟨?_, congrArg sortLinks (Grouping.mem_foldl_group ?_ hentry)⟩
    · have hkey := Grouping.mem_keys_foldl.mp (mem_map.mpr ⟨entry, hentry, rfl⟩)
      rw [hnamedKeys] at hkey
      obtain hname | ⟨link, hlink, htypeEq⟩ := hkey
      · exact declaresOwned_of_name hname
      · exact htypeEq ▸ (mem_filter.mp hlink).2
    · intro group hgroup
      obtain ⟨name, -, rfl⟩ := mem_map.mp hgroup
      rfl
  constructor
  case nodup =>
    rw [hkeys]
    refine Grouping.nodup_keys_foldl ?_
    rw [hnamedKeys]
    exact declarations.distinct.filter _
  case types =>
    intro type
    rw [hkeys, Grouping.mem_keys_foldl, hnamedKeys]
    refine or_congr_right ?_
    constructor
    · rintro ⟨link, hlink, rfl⟩
      obtain ⟨hmem, hdeclared⟩ := mem_filter.mp hlink
      exact ⟨hdeclared, record link, ⟨link, hmem, rfl⟩, htype link⟩
    · rintro ⟨hdeclared, _, ⟨link, hmem, rfl⟩, heq⟩
      rw [htype] at heq
      exact ⟨link, mem_filter.mpr ⟨hmem, heq ▸ hdeclared⟩, heq⟩
  case groups =>
    intro type links hmem
    obtain ⟨entry, hentry, heq⟩ := mem_map.mp hmem
    obtain ⟨rfl, rfl⟩ := Prod.mk.inj heq
    obtain ⟨hdeclared, hlinks⟩ := hgroup hentry
    have hdistinct : ((owned.filter fun link ↦ link.type = entry.1).map PreparedLink.id).Nodup :=
      hnodup.sublist ((List.filter_sublist.trans List.filter_sublist).map _)
    constructor
    · rw [List.pairwise_map, hlinks]
      refine (Grouping.sortBy_strict hdistinct).imp fun hlt ↦ ?_
      rwa [hid, hid]
    · intro link
      rw [hlinks, mem_map]
      constructor
      · rintro ⟨prepared, hprepared, rfl⟩
        obtain ⟨hfiltered, htypeEq⟩ := mem_filter.mp (Grouping.mem_sortBy.mp hprepared)
        exact ⟨⟨prepared, (mem_filter.mp hfiltered).1, rfl⟩,
          (htype prepared).trans (of_decide_eq_true htypeEq)⟩
      · rintro ⟨⟨prepared, hprepared, rfl⟩, htypeEq⟩
        rw [htype] at htypeEq
        refine ⟨prepared, Grouping.mem_sortBy.mpr (mem_filter.mpr ⟨?_, ?_⟩), rfl⟩
        · exact mem_filter.mpr ⟨hprepared, htypeEq ▸ hdeclared⟩
        · exact decide_eq_true htypeEq
  case maxima =>
    intro type links maximum hmem hmax
    obtain ⟨entry, hentry, heq⟩ := mem_map.mp hmem
    obtain ⟨rfl, rfl⟩ := Prod.mk.inj heq
    have hchecked := forM_eq_ok hmaxima entry hentry
    split at hchecked
    · exact absurd hchecked diagnosticFailure_ne_ok
    next hfits =>
      rw [List.length_map]
      exact le_of_exceeds hfits hmax
  case total =>
    intro maximum hmax
    have hsum := le_of_exceeds htotal hmax
    rw [List.map_map]
    simpa only [Function.comp_def, List.length_map] using hsum

/-- A live Link under its key, with its source at a Bead of the Scope. -/
def Outgoing (scope : Scope) (graph : Graph) (owner id : String) (link : LinkRecord) : Prop :=
  ∃ row, graph.resources[id]? = some row ∧ row.body = .link link ∧
    scope.localPath link.source.uri = some owner

variable {key : String}

section

variable (h : Graph.Consistent options.scope graph)
include h

theorem mem_outgoingLinks (hr : Reads graph tx)
    (hplain : hasScheme key = false) {row : StoredResource} : row ∈ tx.outgoingLinks key ↔
      graph.resources[row.id]? = some row ∧ ∃ link, row.body = .link link ∧
        options.scope.localPath link.source.uri = some key := by
  unfold ResourceTransaction.outgoingLinks ResourceTransaction.rows
  rw [hr.resources, mem_filter, mem_map, beq_iff_eq]
  constructor
  · rintro ⟨⟨entry, hmem, rfl⟩, hsource⟩
    have hrow := Table.mem_toList.mp hmem
    have hid := (h.keyed _ _ hrow).1
    refine ⟨hid ▸ hrow, ?_⟩
    rw [h.shaped _ _ hrow] at hsource
    cases hbody : entry.2.body with
    | bead bead => rw [hbody] at hsource; cases hsource
    | link link =>
      refine ⟨link, rfl, ?_⟩
      rw [hbody] at hsource
      have hcolumn : endpointColumn options.scope link.source = key := Option.some.inj hsource
      unfold endpointColumn at hcolumn
      cases hpath : options.scope.localPath link.source.uri with
      | some path => rw [hpath] at hcolumn; exact congrArg some hcolumn
      | none =>
        rw [hpath] at hcolumn
        have habsolute := h.absolute _ _ hrow link.source (by
          rw [hbody]
          exact List.mem_cons_self)
        rw [show link.source.uri = key from hcolumn, hplain] at habsolute
        cases habsolute
  · rintro ⟨hrow, link, hbody, hpath⟩
    refine ⟨⟨(row.id, row), Table.mem_toList.mpr hrow, rfl⟩, ?_⟩
    rw [h.shaped _ _ hrow, hbody, recordShape, endpointColumn, hpath]
    rfl

theorem nodup_outgoingLinks (hr : Reads graph tx)
    (key : String) : ((tx.outgoingLinks key).map fun row ↦ row.body.id).Nodup := by
  have hids : tx.rows.map (fun row ↦ row.body.id) =
      (graph.resources.toList.map Prod.fst).map fun id ↦ options.scope.href ++ id := by
    rw [ResourceTransaction.rows, hr.resources, List.map_map, List.map_map]
    refine List.map_congr_left fun entry hentry ↦ ?_
    exact (h.keyed entry.1 entry.2 (Table.mem_toList.mp hentry)).2
  have hnodup : (tx.rows.map fun row ↦ row.body.id).Nodup := by
    rw [hids]
    exact (Table.toList_keys_nodup _).map fun _ _ heq ↦ (String.append_right_inj _).mp heq
  exact hnodup.sublist (List.filter_sublist.map _)

end

theorem existing_spec {rows : List StoredResource} {prepared : List PreparedLink}
    (h : rows.mapM (fun stored ↦ do
      match ← storedRecord options stored with
      | .link record => pure (PreparedLink.existing record)
      | .bead _ => .error (.fault "invalid stored Resource")) = .ok prepared) :
    prepared.map PreparedLink.id = rows.map (fun row ↦ row.body.id) ∧
      ∀ link, link ∈ prepared ↔ ∃ row ∈ rows, ∃ record, row.body = .link record ∧
        link = .existing record := by
  have hrows := mapM_eq_ok.mp h
  clear h
  induction hrows with
  | nil => exact ⟨rfl, by simp⟩
  | @cons row first rows rest hfirst _ ih =>
    obtain ⟨record, hrecord, hfirst⟩ := Except.bind_eq_ok.mp hfirst
    obtain ⟨rfl, -⟩ := storedRecord_eq_ok.mp hrecord
    cases hbody : row.body with
    | bead bead => rw [hbody] at hfirst; cases hfirst
    | link link =>
      rw [hbody] at hfirst
      obtain rfl := Except.pure_eq_ok_iff.mp hfirst
      refine ⟨?_, fun other ↦ ?_⟩
      · rw [List.map_cons, List.map_cons, ih.1, hbody]
        rfl
      · rw [List.mem_cons, ih.2]
        simp only [List.exists_mem_cons_iff, hbody, ResourceRecord.link.injEq, exists_eq_left']

/-- The live Links of an owner: those that lead from it, but for a removed or replaced one, and the
replacement. -/
theorem liveLinks_spec (h : Graph.Consistent options.scope graph) (hr : Reads graph tx)
    {replaced : Option String} (hplain : hasScheme key = false)
    (hreplaced : replacement.map (fun recipe ↦ recipe.id) =
      replaced.map fun id ↦ options.scope.href ++ id)
    (hlive : liveLinks options tx (options.scope.href ++ key) replacement removed = .ok live) :
    (live.map PreparedLink.id).Nodup ∧ ∀ prepared, prepared ∈ live ↔
      (∃ id link, prepared = .existing link ∧ Outgoing options.scope graph key id link ∧
        some id ≠ removed ∧ some id ≠ replaced) ∨
      ∃ recipe, replacement = some recipe ∧ prepared = .replacement recipe := by
  unfold liveLinks at hlive
  rw [UrlPath.Scope.localPath_append, require_some, Except.ok_bind] at hlive
  obtain ⟨existing, hexisting, hlive⟩ := Except.bind_eq_ok.mp hlive
  obtain rfl := Except.pure_eq_ok_iff.mp hlive
  obtain ⟨hids, hmem⟩ := existing_spec hexisting
  have hkept (row : StoredResource) : row ∈ (tx.outgoingLinks key).filter (fun link ↦
      some link.id != removed &&
        options.scope.resolve link.id != replacement.map fun recipe ↦ recipe.id) ↔
      row ∈ tx.outgoingLinks key ∧ some row.id ≠ removed ∧ some row.id ≠ replaced := by
    rw [mem_filter, Bool.and_eq_true, bne_iff_ne, bne_iff_ne]
    refine and_congr_right fun hrow ↦ and_congr_right fun _ ↦ not_congr ?_
    have hfound := ((mem_outgoingLinks h hr hplain).mp hrow).1
    rw [UrlPath.Scope.resolve_plain (h.plain _ (Table.mem_of_lookup (h.committed _ _ hfound))),
      hreplaced]
    cases replaced with
    | none => simp
    | some id => simp [String.append_right_inj]
  constructor
  · rw [List.map_append, List.nodup_append, hids]
    refine ⟨(nodup_outgoingLinks h hr key).sublist (List.filter_sublist.map _), ?_, ?_⟩
    · cases replacement with
      | none => exact List.nodup_nil
      | some recipe => exact List.nodup_singleton _
    · rintro other hother _ hlast rfl
      obtain ⟨row, hrow, rfl⟩ := mem_map.mp hother
      obtain ⟨hout, -, hne⟩ := (hkept row).mp hrow
      have hrowId := (h.keyed _ _ ((mem_outgoingLinks h hr hplain).mp hout).1).2
      cases replacement with
      | none => cases hlast
      | some recipe =>
        cases replaced with
        | none => cases hreplaced
        | some id =>
          have hid : recipe.id = options.scope.href ++ id := Option.some.inj hreplaced
          have hsame : row.body.id = recipe.id := List.mem_singleton.mp hlast
          rw [hrowId, hid] at hsame
          exact hne (congrArg some ((String.append_right_inj _).mp hsame))
  · intro prepared
    rw [List.mem_append, hmem]
    refine or_congr ?_ ?_
    · constructor
      · rintro ⟨row, hrow, link, hbody, rfl⟩
        obtain ⟨hout, hremoved, hreplacedRow⟩ := (hkept row).mp hrow
        obtain ⟨hfound, link', hbody', hpath⟩ := (mem_outgoingLinks h hr hplain).mp hout
        obtain rfl := ResourceRecord.link.inj (hbody.symm.trans hbody')
        exact ⟨row.id, link, rfl, ⟨row, hfound, hbody, hpath⟩, hremoved, hreplacedRow⟩
      · rintro ⟨id, link, rfl, ⟨row, hfound, hbody, hpath⟩, hremoved, hreplacedRow⟩
        obtain rfl := (h.keyed id row hfound).1
        exact ⟨row, (hkept row).mpr ⟨(mem_outgoingLinks h hr hplain).mpr
          ⟨hfound, link, hbody, hpath⟩, hremoved, hreplacedRow⟩, link, hbody, rfl⟩
    · cases replacement with
      | none => simp
      | some recipe => simp

end Lists

end Bdp.Evaluator
