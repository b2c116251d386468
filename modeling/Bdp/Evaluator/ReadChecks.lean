import Bdp.Evaluator.AuthorityRead

/-!
# Reads of a checked graph

On a graph that keeps its invariants, and whose stored records the parser takes back, no check of a
read fails: a point read gives the body of the row, and the closure of a record is visible to the
read plane exactly as it is to the evaluator.
-/

namespace Bdp.Evaluator

open Recovery (ResourceKind ResourceShape)
open Transaction (Reference)
open UrlPath (Scope hasScheme canonicalPath)
open Bdp.Except (ok_bind)

variable {config : GraphConfiguration} {plane : ReadPlane} {graph : Graph} {context : MemberContext}

/-- A graph that keeps its invariants, with records that the record parser takes back. -/
structure Graph.Checked (config : GraphConfiguration) (plane : ReadPlane) (graph : Graph) : Prop where
  consistent : graph.Consistent config.scope
  owned : graph.Owned config
  named : graph.Named config plane.aliasesScope
  aliases : ∀ path, canonicalPath path = true → plane.aliasesScope (config.scope.href ++ path) = true
  readable : ∀ (key : String) (row : StoredResource), graph.resources[key]? = some row →
    config.readable row.body = true

section Rows

variable {key : String} {row : StoredResource}

section

variable (h : graph.Checked config plane)
include h

section

variable (hrow : graph.resources[key]? = some row)
include hrow

theorem Graph.Checked.plain : hasScheme key = false :=
  h.consistent.plain key (Table.mem_of_lookup (h.consistent.committed key row hrow))

theorem Graph.Checked.validId :
    validateServerLocalResourceId config.scope (config.scope.href ++ key) = .ok () := by
  obtain ⟨hcanonical, hreserved⟩ := h.named.canonical key row hrow
  unfold validateServerLocalResourceId
  rw [UrlPath.Scope.localPath_append, require_some, ok_bind,
    resolveCanonicalLocalResourceId_ok hcanonical hreserved (h.plain hrow), ok_bind,
    check_of rfl]

theorem Graph.Checked.storedRecord_ok :
    storedRecord (context.options config) row = .ok row.body := by
  obtain ⟨rfl, hid⟩ := h.consistent.keyed key row hrow
  refine storedRecord_eq_ok.mpr ⟨rfl, ?_, h.readable row.id row hrow, ?_⟩
  · rw [StoredResource.kind, h.consistent.shaped row.id row hrow, recordShape_kind]
  · exact UrlPath.Scope.resourcePath_eq_some.mpr ⟨hid, (h.named.canonical row.id row hrow).1⟩

variable {link : LinkRecord}

theorem Graph.Checked.validLink (hbody : row.body = .link link) :
    validateServerLink plane (context.options config) link = .ok () := by
  have hid := (h.consistent.keyed key row hrow).2
  rw [hbody] at hid
  have hvalid {reference : Reference} (hmem : reference ∈ ends row.body) :=
    validateServerEndpoint_ok h.consistent h.named h.aliases hrow hmem
  rw [hbody] at hvalid
  have hkind : row.kind = .link := by
    rw [StoredResource.kind, h.consistent.shaped key row hrow, hbody]
    rfl
  have hanchored := h.consistent.anchored key row hrow hkind
  rw [hbody] at hanchored
  unfold validateServerLink
  change (validateServerLocalResourceId config.scope (ResourceRecord.link link).id >>= fun _ ↦ _) = _
  rw [hid, h.validId hrow, ok_bind]
  change (validateServerEndpoint config.scope _ link.source >>= fun _ ↦ _) = _
  rw [hvalid List.mem_cons_self, ok_bind]
  change (validateServerEndpoint config.scope _ link.target >>= fun _ ↦ _) = _
  rw [hvalid (List.mem_cons_of_mem _ List.mem_cons_self), ok_bind]
  refine check_of ?_
  by_contra hnone
  rw [not_or, Bool.not_eq_true, Bool.not_eq_true, Option.isSome_eq_false_iff,
    Option.isSome_eq_false_iff, Option.isNone_iff_eq_none, Option.isNone_iff_eq_none] at hnone
  refine hanchored ?_
  simp [localEnds, ends, hnone]

theorem Graph.Checked.inline_row {bead : BeadRecord} (hbody : row.body = .bead bead)
    {entry : String × List LinkRecord} (hentry : entry ∈ bead.ownedLinks.getD [])
    (hlink : link ∈ entry.2) :
    ∃ id, Outgoing config.scope graph key id link := by
  obtain ⟨-, descriptor, hdescriptor, -⟩ := h.owned.typed key row hrow
  rw [hbody] at hdescriptor
  have hlists := h.owned.plane key row bead descriptor hrow hbody hdescriptor
  unfold ListsOwned at hlists
  cases howns : descriptor.ownsOutgoing with
  | none =>
    rw [howns] at hlists
    have hnone : bead.ownedLinks = none := hlists
    rw [hnone] at hentry
    cases hentry
  | some declarations =>
    rw [howns] at hlists
    obtain ⟨entries, hentries, hexact⟩ := hlists
    rw [hentries] at hentry
    exact (((hexact.groups entry.1 entry.2 hentry).2 link).mp hlink).1

theorem Graph.Checked.accept_ok : accept plane (context.options config) row = .ok row.body := by
  have hvalid : acceptRecord plane (context.options config) row row.body = .ok () := by
    cases hbody : row.body with
    | bead bead =>
      have hid := (h.consistent.keyed key row hrow).2
      rw [hbody] at hid
      have hbead : validateServerBead plane (context.options config) bead = .ok () := by
        change (validateServerLocalResourceId config.scope (ResourceRecord.bead bead).id >>=
          fun _ ↦ _) = _
        rw [hid, h.validId hrow, ok_bind]
        refine forM_ok fun entry hentry ↦ forM_ok fun link hlink ↦ ?_
        obtain ⟨id, found, hfound, hfoundBody, -⟩ := h.inline_row hrow hbody hentry hlink
        exact h.validLink hfound hfoundBody
      exact congrArg validStored hbead
    | link link =>
      have hindex {reference : Reference} (hmem : reference ∈ ends row.body) :
          endpointIndex plane (context.options config) reference =
            .ok (endpointColumn config.scope reference) := by
        unfold endpointIndex
        change (validateServerEndpoint config.scope _ reference >>= fun _ ↦ _) = _
        rw [validateServerEndpoint_ok h.consistent h.named h.aliases hrow hmem, ok_bind,
          endpointColumn]
        cases hpath : config.scope.localPath reference.uri with
        | none => rfl
        | some name =>
          rw [UrlPath.Scope.localPath_eq_some.mp hpath]
          exact congrArg Except.ok (sliceScope_append name)
      rw [hbody] at hindex
      have hshape := h.consistent.shaped key row hrow
      rw [hbody] at hshape
      unfold acceptRecord
      simp only [h.validLink hrow hbody, hindex List.mem_cons_self, validStored, Except.mapError,
        hindex (List.mem_cons_of_mem _ List.mem_cons_self), ok_bind]
      refine check_of ?_
      rw [hshape]
      exact ⟨rfl, rfl⟩
  unfold accept
  rw [h.storedRecord_ok hrow]
  change (acceptRecord plane (context.options config) row row.body >>= fun _ ↦ pure row.body) = _
  rw [hvalid, ok_bind]
  rfl

end

theorem Graph.Checked.point_ok (id : String) :
    point plane (context.options config) (graph.view config context) id =
      .ok (graph.resources[id]?.map StoredResource.body) := by
  have hview : (graph.view config context).resource id = graph.resources[id]? := rfl
  unfold point
  rw [hview]
  cases hrow : graph.resources[id]? with
  | none => rfl
  | some row =>
    simp only [check_of (h.consistent.keyed id row hrow).1, h.accept_ok hrow, ok_bind]
    rfl

theorem Graph.Checked.checkOwned_ok (hrow : graph.resources[key]? = some row) :
    checkOwned plane (context.options config) (graph.view config context) row.body = .ok () := by
  cases hbody : row.body with
  | link link => rfl
  | bead bead =>
    refine forM_ok fun entry hentry ↦ forM_ok fun link hlink ↦ ?_
    obtain ⟨id, found, hfound, hfoundBody, hpath⟩ := h.inline_row hrow hbody hentry hlink
    have hid := (h.consistent.keyed id found hfound).2
    have hbead := (h.consistent.keyed key row hrow).2
    rw [hfoundBody] at hid
    rw [hbody] at hbead
    have hslice : localSlice (context.options config) link.id = id := by
      change localSlice (context.options config) (ResourceRecord.link link).id = id
      rw [hid]
      exact sliceScope_append id
    simp only [hslice, h.point_ok, ok_bind]
    refine check_of ⟨?_, (UrlPath.Scope.localPath_eq_some.mp hpath).trans hbead.symm⟩
    rw [hfound, Option.map_some, hfoundBody]

theorem Graph.Checked.graphPoint_ok (id : String) :
    graphPoint plane (context.options config) (graph.view config context) id =
      .ok (graph.resources[id]?.map StoredResource.body) := by
  unfold graphPoint
  rw [h.point_ok, ok_bind]
  cases hrow : graph.resources[id]? with
  | none => rfl
  | some row =>
    simp only [Option.map_some, h.checkOwned_ok hrow, ok_bind]
    rfl

theorem Graph.Checked.graphAccept_ok (hrow : graph.resources[key]? = some row) :
    graphAccept plane (context.options config) (graph.view config context) row = .ok row.body := by
  unfold graphAccept
  rw [h.accept_ok hrow, ok_bind, h.checkOwned_ok hrow, ok_bind]
  rfl

end

end Rows

section Closures

section

variable (h : graph.Checked config plane)
include h

theorem Graph.Checked.endpoints_agree (context : MemberContext) (reference : Reference) :
    ∃ found, endpointBead (context.options config) (graph.view config context) reference = .ok found ∧
      checkedEndpoint plane (context.options config) (graph.view config context) reference =
        .ok found := by
  unfold endpointBead checkedEndpoint
  cases hpath : (context.options config).scope.localPath reference.uri with
  | none => exact ⟨some [], rfl, rfl⟩
  | some id =>
    have hview : (graph.view config context).resource id = graph.resources[id]? := rfl
    simp only [h.graphPoint_ok, ok_bind, hview]
    cases hrow : graph.resources[id]? with
    | none => exact ⟨none, rfl, rfl⟩
    | some row =>
      have hkind : row.kind = row.body.kind := by
        rw [StoredResource.kind, h.consistent.shaped id row hrow, recordShape_kind]
      cases hbody : row.body with
      | bead bead =>
        have hbead : (row.kind == .bead) = true := by rw [hkind, hbody]; rfl
        refine ⟨some [.bead bead], ?_, ?_⟩
        · have hfilter : (some row).filter (fun found ↦ found.kind == .bead) = some row :=
            Option.filter_some_pos hbead
          simp only [hfilter, h.storedRecord_ok hrow, hbody]
          rfl
        · simp only [Option.map_some, hbody]
          rfl
      | link link =>
        have hlink : (row.kind == .bead) = false := by rw [hkind, hbody]; rfl
        refine ⟨none, ?_, ?_⟩
        · have hfilter : (some row).filter (fun found ↦ found.kind == .bead) = none :=
            Option.filter_some_neg (Bool.not_eq_true _ ▸ hlink)
          simp only [hfilter]
        · simp only [Option.map_some, hbody]
          rfl

theorem Graph.Checked.beads_agree (context : MemberContext) (links : List LinkRecord) :
    ∃ found, linkedBeads (context.options config) (graph.view config context) links = .ok found ∧
      checkedBeads plane (context.options config) (graph.view config context) links = .ok found := by
  induction links with
  | nil => exact ⟨some [], rfl, rfl⟩
  | cons link links ih =>
    obtain ⟨source, hsource, hsource'⟩ := h.endpoints_agree context link.source
    obtain ⟨target, htarget, htarget'⟩ := h.endpoints_agree context link.target
    obtain ⟨more, hmore, hmore'⟩ := ih
    unfold linkedBeads checkedBeads
    by_cases hread : (context.options config).policy.canRead (.link link) = false
    · exact ⟨none, if_pos hread, if_pos hread⟩
    · rw [if_neg hread, if_neg hread, hsource, hsource', ok_bind, ok_bind]
      cases source with
      | none => exact ⟨none, rfl, rfl⟩
      | some source =>
        simp only [htarget, htarget', ok_bind]
        cases target with
        | none => exact ⟨none, rfl, rfl⟩
        | some target =>
          simp only [hmore, hmore', ok_bind]
          exact ⟨_, rfl, rfl⟩

variable {visible : Bool}

theorem Graph.Checked.visit_agree {fuel : ℕ} {seen : List String} {pending : List ResourceRecord}
    (hvisible : visitPending (context.options config) (graph.view config context) fuel seen pending =
      .ok visible) :
    visitChecked plane (context.options config) (graph.view config context) fuel seen pending =
      .ok visible := by
  induction fuel generalizing seen pending with
  | zero => cases hvisible
  | succ fuel ih =>
    cases pending with
    | nil =>
      unfold visitPending at hvisible
      unfold visitChecked
      exact congrArg Except.ok (Except.ok.inj hvisible)
    | cons current pending =>
      obtain ⟨found, hfound, hfound'⟩ := h.beads_agree context current.links
      unfold visitPending at hvisible
      unfold visitChecked
      split at hvisible
      next hseen =>
        rw [if_pos hseen]
        exact ih hvisible
      next hseen =>
        rw [if_neg hseen]
        split at hvisible
        next hread =>
          rw [if_pos hread]
          exact congrArg Except.ok (Except.ok.inj hvisible)
        next hread =>
          rw [if_neg hread, hfound', ok_bind]
          rw [hfound, ok_bind] at hvisible
          cases found with
          | none => exact congrArg Except.ok (Except.ok.inj hvisible)
          | some found => exact ih hvisible

theorem Graph.Checked.graphVisible_ok {key : String}
    {row : StoredResource} (hrow : graph.resources[key]? = some row)
    (hvisible : isResourceVisible (context.options config) (graph.view config context) row.body =
      .ok visible) :
    graphVisible plane (context.options config) (graph.view config context) row.body =
      .ok visible := by
  unfold graphVisible
  rw [h.checkOwned_ok hrow, ok_bind]
  exact h.visit_agree hvisible

end

end Closures

end Bdp.Evaluator
