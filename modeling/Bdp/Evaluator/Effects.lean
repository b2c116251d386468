import Bdp.Evaluator.GraphInvariant

/-!
# What a mutation does to a consistent graph

In a consistent graph a mutation under a plain identity writes only rows that keep the graph
consistent: the row of its subject, and the row of the Bead that owns the subject. A creation takes
an identity that is neither committed nor a live alias.
-/

namespace Bdp.Evaluator

open Recovery (ResourceKind ResourceShape)
open Retained (JsonObject)
open Transaction (Reference)
open UrlPath (Scope hasScheme)
open UrlPath.Scope (resolve_plain localPath_append)

/-- A facade over a graph; the aliases that it shows lead to committed Beads. -/
structure Reads (graph : Graph) (tx : ResourceTransaction) : Prop where
  resources : tx.resources = graph.resources
  ledger : ∀ id, tx.identityWasCommitted id = false → id ∉ graph.identities
  aliases : ∀ path target, tx.alias path = some target →
    graph.identities[target]? = some .bead ∧ aliasPath target = none

def ResourceMutation.suppliedIdentity : ResourceMutation → Option String
  | .createBead input => input.id
  | .createLink input _ _ => input.id
  | _ => none

variable {options : ResourceEvaluationOptions} {tx : ResourceTransaction} {graph : Graph}
  {mutation : ResourceMutation} {prepared : Prepared} {versions : Versions}

section Subjects

variable {subject : Subject} {record : ResourceRecord} {kind : ResourceKind} {uri name : String}

theorem mutationSubject_spec (h : mutationSubject options tx mutation = .ok subject) :
    mutation.creating = true ∧
        CreatedSubject options tx mutation.resourceKind mutation.suppliedIdentity subject ∨
      mutation.creating = false ∧
        ∃ name record, FoundSubject options tx mutation.resourceKind name subject record := by
  cases mutation with
  | createBead input => exact .inl ⟨rfl, creationSubject_spec h⟩
  | createLink input source target => exact .inl ⟨rfl, creationSubject_spec h⟩
  | update kind input => exact .inr ⟨rfl, input.subject, existingSubject_spec h⟩
  | delete kind name expected => exact .inr ⟨rfl, name, existingSubject_spec h⟩

theorem row_of_loadVisible (hr : Reads graph tx)
    (hload : loadVisible options tx uri kind = .ok record) :
    ∃ key row, uri = options.scope.href ++ key ∧ graph.resources[key]? = some row ∧
      row.kind = kind ∧ row.body = record ∧ record.kind = kind := by
  obtain ⟨key, row, huri, hrow, hkind, rfl, hrecord, -⟩ := loadVisible_row hload
  rw [ResourceTransaction.resource, hr.resources] at hrow
  exact ⟨key, row, huri, hrow, hkind, rfl, hrecord⟩

section

variable (h : Graph.Consistent options.scope graph)
include h

theorem FoundSubject.row (hr : Reads graph tx)
    (hfound : FoundSubject options tx kind name subject record) :
    subject.uri = options.scope.href ++ subject.id ∧
      ∃ row, graph.resources[subject.id]? = some row ∧ row.kind = kind ∧ row.body = record ∧
        record.kind = kind := by
  obtain ⟨uri, -, hload⟩ := hfound.loaded
  obtain ⟨key, row, -, hrow, hkind, rfl, hrecord⟩ := row_of_loadVisible hr hload
  have hkey : subject.id = key := by
    have hid := hfound.named
    rw [(h.keyed key row hrow).2] at hid
    exact (String.append_right_inj _).mp hid.symm
  subst hkey
  have hplain := h.plain _ (Table.mem_of_lookup (h.committed _ row hrow))
  have huri := hfound.resolved
  rw [resolve_plain hplain, Option.some.injEq] at huri
  exact ⟨huri.symm, row, hrow, hkind, rfl, hrecord⟩

theorem CreatedSubject.fresh {supplied : Option String} (hr : Reads graph tx)
    (hcreated : CreatedSubject options tx kind supplied subject)
    (hplain : hasScheme subject.id = false) :
    subject.uri = options.scope.href ++ subject.id ∧ subject.id ∉ graph.identities ∧
      subject.id ∉ graph.resources := by
  have huri := hcreated.resolved
  rw [resolve_plain hplain, Option.some.injEq] at huri
  have hnew := hr.ledger _ hcreated.uncommitted
  refine ⟨huri.symm, hnew, fun hrow ↦ ?_⟩
  obtain ⟨row, hrow⟩ := Table.mem_iff_exists.mp hrow
  exact hnew (Table.mem_of_lookup (h.committed _ row hrow))

end

end Subjects

variable {key : String}

section Endpoints

variable {reference result : Reference} {record : ResourceRecord}

section

variable (h : Graph.Consistent options.scope graph)
include h

theorem AdmittedEndpoint.live (hr : Reads graph tx)
    (hend : AdmittedEndpoint options tx reference result) :
    hasScheme result.uri = true ∧ ∀ name, options.scope.localPath result.uri = some name →
      aliasPath name = none ∧ ∃ row, graph.resources[name]? = some row ∧ IsBeadRow row := by
  have hrow (name : String) (hname : options.scope.localPath result.uri = some name) :
      ∃ row, graph.resources[name]? = some row ∧ IsBeadRow row := by
    obtain hnone | ⟨record, hload⟩ := hend.visible
    · rw [hname] at hnone
      cases hnone
    · obtain ⟨key, row, huri, hrow, hkind, -⟩ := row_of_loadVisible hr hload
      rw [huri, localPath_append, Option.some.injEq] at hname
      exact ⟨row, hname ▸ hrow, hkind⟩
  obtain ⟨spelled, hspelled, ⟨halias, huri⟩ | ⟨path, target, -, htarget, -, huri⟩⟩ :=
    resolve_bead_eq_ok hend.resolved
  · refine ⟨huri ▸ hasScheme_of_canonical hspelled, fun name hname ↦ ⟨?_, hrow name hname⟩⟩
    rwa [← huri, hname, Option.bind_some] at halias
  · obtain ⟨hcommitted, hplain⟩ := hr.aliases path target htarget
    rw [resolve_plain (h.plain target (Table.mem_of_lookup hcommitted)),
      Option.some.injEq] at huri
    refine ⟨huri ▸ UrlPath.Scope.hasScheme_append target, fun name hname ↦ ⟨?_, hrow name hname⟩⟩
    rw [← huri, localPath_append, Option.some.injEq] at hname
    rwa [← hname]

theorem AdmittedEndpoint.uri_of_stored
    {row : StoredResource} (hrow : graph.resources[key]? = some row)
    (hmem : reference ∈ ends row.body) (hend : AdmittedEndpoint options tx reference result) :
    result.uri = reference.uri := by
  have hcanonical := @canonical_absolute options _ (h.absolute key row hrow reference hmem)
  have halias : (options.scope.localPath reference.uri).bind aliasPath = none := by
    cases hname : options.scope.localPath reference.uri with
    | none => rfl
    | some name =>
      exact h.resolved key row hrow name (List.mem_filterMap.mpr ⟨reference, hmem, hname⟩)
  have hresolved := hend.resolved
  rw [resolve_of_not_alias hcanonical halias] at hresolved
  exact (Except.ok.inj hresolved).symm

end

end Endpoints

section Subject

variable {record : ResourceRecord} {row : StoredResource} {noOp : Bool}

/-- The pair of endpoints as the references of a Link. -/
def pairEnds : Option Endpoints → List Reference
  | none => []
  | some pair => [pair.1, pair.2]

theorem after_spec (hprepared : IsPrepared options tx mutation prepared)
    (hmade : makeVersions options tx mutation prepared noOp = .ok versions)
    (hafter : versions.after = some record) :
    mutation.deleting = false ∧ record.id = prepared.subject.uri ∧
      record.kind = mutation.resourceKind ∧ ends record = pairEnds prepared.endpoints ∧
      record.fields.type = prepared.type := by
  obtain ⟨subject, source, native, hversions⟩ := makeVersions_spec hmade
  rw [hversions.after] at hafter
  obtain ⟨recipe, rfl, rfl⟩ := Option.map_eq_some_iff.mp hafter
  obtain ⟨-, hnone⟩ | ⟨hdeleting, revision, -, hrecipe⟩ := subjectRecipe_eq_ok hversions.subjectMade
  · cases hnone
  refine ⟨hdeleting, ?_⟩
  have hkind := mutationEndpoints_spec hprepared.endpoints
  obtain ⟨pair, hpair, hrecipe⟩ | ⟨hnone, owned, -, hrecipe⟩ := hrecipe
  · obtain rfl := Option.some.inj hrecipe
    obtain ⟨-, hnone⟩ | ⟨hlink, -⟩ := hkind
    · rw [hpair] at hnone
      cases hnone
    · rw [hpair, hlink]
      exact ⟨rfl, rfl, rfl, rfl⟩
  · obtain rfl := Option.some.inj hrecipe
    obtain ⟨hbead, -⟩ | ⟨-, pair, hpair, -⟩ := hkind
    · rw [hnone, hbead]
      exact ⟨rfl, rfl, rfl, rfl⟩
    · rw [hnone] at hpair
      cases hpair

theorem pairEnds_live (h : Graph.Consistent options.scope graph) (hr : Reads graph tx)
    (hprepared : IsPrepared options tx mutation prepared) {reference : Reference}
    (hmem : reference ∈ pairEnds prepared.endpoints) :
    hasScheme reference.uri = true ∧ ∀ name, options.scope.localPath reference.uri = some name →
      aliasPath name = none ∧ ∃ row, graph.resources[name]? = some row ∧ IsBeadRow row := by
  obtain ⟨-, hnone⟩ | ⟨-, pair, hpair, hends⟩ := mutationEndpoints_spec hprepared.endpoints
  · rw [hnone] at hmem
    cases hmem
  · rw [hpair] at hmem
    obtain ⟨source, target, -, hsource, htarget⟩ := hends.referenced
    obtain rfl | hmem := List.mem_cons.mp hmem
    · exact hsource.live h hr
    · obtain rfl := List.mem_singleton.mp hmem
      exact htarget.live h hr

theorem recordShape_kind (scope : Scope) (record : ResourceRecord) :
    (recordShape scope record).kind = record.kind := by
  cases record <;> rfl

theorem recordShape_congr {scope : Scope} {left right : ResourceRecord}
    (hkind : left.kind = right.kind)
    (hends : (ends left).map Reference.uri = (ends right).map Reference.uri) :
    recordShape scope left = recordShape scope right := by
  cases left with
  | bead left =>
    cases right with
    | bead right => rfl
    | link right => cases hkind
  | link left =>
    cases right with
    | bead right => cases hkind
    | link right =>
      simp only [ends, List.map_cons, List.map_nil, List.cons.injEq] at hends
      simp only [recordShape, endpointColumn, hends.1, hends.2.1]

section

variable (h : Graph.Consistent options.scope graph)
include h

theorem pairEnds_of_found
    (hprepared : IsPrepared options tx mutation prepared) (hcreating : mutation.creating = false)
    (hrow : graph.resources[key]? = some row) (hbefore : prepared.subject.before = some row.body)
    (hkind : row.body.kind = mutation.resourceKind) :
    (pairEnds prepared.endpoints).map Reference.uri = (ends row.body).map Reference.uri := by
  obtain ⟨hbead, hnone⟩ | ⟨hlink, pair, hpair, hends⟩ := mutationEndpoints_spec hprepared.endpoints
  · rw [hbead] at hkind
    rw [hnone]
    cases hbody : row.body with
    | bead record => rfl
    | link record => rw [hbody] at hkind; cases hkind
  · obtain ⟨source, target, hreferences, hsource, htarget⟩ := hends.referenced
    rw [hbefore] at hreferences
    rw [hlink] at hkind
    cases hbody : row.body with
    | bead record => rw [hbody] at hkind; cases hkind
    | link record =>
      have hstored : record.source = source ∧ record.target = target := by
        rw [hbody] at hreferences
        cases mutation with
        | createBead input => cases hcreating
        | createLink input source target => cases hcreating
        | update kind input => exact Prod.mk.inj (Option.some.inj hreferences)
        | delete kind name expected => exact Prod.mk.inj (Option.some.inj hreferences)
      obtain ⟨rfl, rfl⟩ := hstored
      have hfirst := hsource.uri_of_stored h hrow (by rw [hbody]; exact List.mem_cons_self)
      have hsecond := htarget.uri_of_stored h hrow (by
        rw [hbody]
        exact List.mem_cons_of_mem _ List.mem_cons_self)
      rw [hpair]
      simp only [pairEnds, ends, List.map_cons, List.map_nil, hfirst, hsecond]

theorem subject_rowWrite (hr : Reads graph tx) (hprepared : IsPrepared options tx mutation prepared)
    (hmade : makeVersions options tx mutation prepared noOp = .ok versions)
    (hplain : mutation.creating = true → hasScheme prepared.subject.id = false)
    (hunaliased : mutation.creating = true →
      ∀ path, aliasPath prepared.subject.id = some path → path ∉ graph.aliases)
    (hafter : versions.after = some record) (hrow : writtenRow options record = .ok row) :
    row.id = prepared.subject.id ∧ row.body = record ∧ Graph.RowWrite options.scope graph row := by
  obtain ⟨hdeleting, hid, hkind, hends, -⟩ := after_spec hprepared hmade hafter
  obtain ⟨hrowId, hrowEq⟩ := writtenRow_eq_ok.mp hrow
  have hbody : row.body = record := by rw [hrowEq]
  have hshape : row.shape = recordShape options.scope record := by rw [hrowEq]
  have hsubject := mutationSubject_spec hprepared.subject
  have huri : prepared.subject.uri = options.scope.href ++ prepared.subject.id := by
    obtain ⟨hcreating, hcreated⟩ | ⟨-, name, found, hfound⟩ := hsubject
    · exact (hcreated.fresh h hr (hplain hcreating)).1
    · exact (hfound.row h hr).1
  have hkey : row.id = prepared.subject.id := by
    rw [hrowId, huri] at hid
    exact (String.append_right_inj _).mp hid
  refine ⟨hkey, hbody, ?_⟩
  constructor
  case keyed => rw [hbody, hrowId]
  case shaped => rw [hshape, hbody]
  case kept =>
    intro old hold
    rw [hkey] at hold
    obtain ⟨hcreating, hcreated⟩ | ⟨hcreating, name, found, hfound⟩ := hsubject
    · exact absurd (Table.mem_of_lookup hold) (hcreated.fresh h hr (hplain hcreating)).2.2
    · obtain ⟨-, other, hother, -, rfl, hfoundKind⟩ := hfound.row h hr
      obtain rfl := Option.some.inj (hold.symm.trans hother)
      rw [h.shaped _ old hold, hshape]
      refine recordShape_congr (hfoundKind.trans hkind.symm) ?_
      rw [hends, pairEnds_of_found h hprepared hcreating hold hfound.before hfoundKind]
  case fresh =>
    intro hnew
    rw [hkey] at hnew ⊢
    obtain ⟨hcreating, hcreated⟩ | ⟨hcreating, name, found, hfound⟩ := hsubject
    · exact ⟨(hcreated.fresh h hr (hplain hcreating)).2.1, hplain hcreating, hunaliased hcreating⟩
    · obtain ⟨-, other, hother, -⟩ := hfound.row h hr
      exact absurd (Table.mem_of_lookup hother) hnew
  case linked =>
    intro name hname
    rw [hbody, localEnds, hends] at hname
    obtain ⟨reference, hmem, hpath⟩ := List.mem_filterMap.mp hname
    exact (pairEnds_live h hr hprepared hmem).2 name hpath
  case anchored =>
    intro hlinkRow
    rw [StoredResource.kind, hshape, recordShape_kind, hkind] at hlinkRow
    obtain ⟨hbead, -⟩ | ⟨-, pair, hpair, hpairEnds⟩ := mutationEndpoints_spec hprepared.endpoints
    · rw [hlinkRow] at hbead
      cases hbead
    · rw [hbody, localEnds, hends, hpair]
      intro hnil
      rw [List.filterMap_eq_nil_iff] at hnil
      obtain hsome | hsome := hpairEnds.inScope hdeleting
      · rw [hnil pair.1 List.mem_cons_self] at hsome
        cases hsome
      · rw [hnil pair.2 (List.mem_cons_of_mem _ List.mem_cons_self)] at hsome
        cases hsome
  case absolute =>
    intro reference hmem
    rw [hbody, hends] at hmem
    exact (pairEnds_live h hr hprepared hmem).1

end

end Subject

section Source

variable {bead : BeadRecord} {descriptor : TypeDescriptor} {row : StoredResource} {noOp : Bool}

theorem owningSource_spec (h : Graph.Consistent options.scope graph) (hr : Reads graph tx)
    (hprepared : IsPrepared options tx mutation prepared)
    (howning : owningSource prepared = some (bead, descriptor)) :
    ∃ pair key row, prepared.endpoints = some pair ∧ pair.1.uri = options.scope.href ++ key ∧
      bead.id = options.scope.href ++ key ∧ graph.resources[key]? = some row ∧ IsBeadRow row ∧
      row.body = .bead bead := by
  have hsource : prepared.source = some bead := by
    unfold owningSource at howning
    split at howning
    next source descriptor hsource hdescriptor =>
      split at howning
      · rw [hsource, (Prod.mk.inj (Option.some.inj howning)).1]
      · cases howning
    next => cases howning
  have hbead := hprepared.source
  rw [hsource] at hbead
  cases hpair : prepared.endpoints with
  | none => rw [hpair] at hbead; cases hbead
  | some pair =>
    rw [hpair] at hbead
    obtain ⟨key, uri, hkey, huri, hload⟩ := sourceBead_spec hbead
    obtain ⟨-, found, hfound, hfoundBead⟩ :=
      (pairEnds_live h hr hprepared
        (show pair.1 ∈ pairEnds prepared.endpoints by rw [hpair]; exact List.mem_cons_self)).2
        key hkey
    have hplain := h.plain key (Table.mem_of_lookup (h.committed key found hfound))
    rw [resolve_plain hplain, Option.some.injEq] at huri
    obtain ⟨other, row, huri', hrow, hkind, hbody, -⟩ := row_of_loadVisible hr hload
    obtain rfl : key = other := (String.append_right_inj _).mp (huri.trans huri')
    have hid := (h.keyed key row hrow).2
    rw [hbody] at hid
    exact ⟨pair, key, row, rfl, UrlPath.Scope.localPath_eq_some.mp hkey, hid, hrow, hkind, hbody⟩

/-- The Type of a Bead declares that it owns Links of a Type. -/
def OwnsType (options : ResourceEvaluationOptions) (tx : ResourceTransaction) (bead : BeadRecord)
    (type : String) : Prop :=
  ∃ effective descriptor declarations, contracts options tx bead.type = .ok effective ∧
    declaredType bead.type effective = some descriptor ∧
    descriptor.ownsOutgoing = some declarations ∧ declaresOwned declarations type = true

theorem owningSource_ownsType (hprepared : IsPrepared options tx mutation prepared)
    (howning : owningSource prepared = some (bead, descriptor)) :
    OwnsType options tx bead prepared.type := by
  have hsourceType := hprepared.sourceType
  unfold owningSource at howning
  split at howning
  next source found hsource hdescriptor =>
    split at howning
    next howns =>
      obtain ⟨rfl, rfl⟩ := Prod.mk.inj (Option.some.inj howning)
      rw [hsource, hdescriptor, sourceType] at hsourceType
      cases heffective : contracts options tx source.type with
      | error stop => rw [heffective] at hsourceType; cases hsourceType
      | ok effective =>
        rw [heffective] at hsourceType
        obtain ⟨declarations, hdeclarations, hdeclared⟩ := (Option.any_eq_true _ _).mp howns
        exact ⟨effective, found, declarations, heffective, Except.ok.inj hsourceType,
          hdeclarations, hdeclared⟩
    · cases howning
  next => cases howning

theorem source_rowWrite (h : Graph.Consistent options.scope graph) (hr : Reads graph tx)
    (hprepared : IsPrepared options tx mutation prepared)
    (hmade : makeVersions options tx mutation prepared noOp = .ok versions)
    (hafter : versions.sourceAfter = some bead)
    (hrow : writtenRow options (.bead bead) = .ok row) :
    row.body = .bead bead ∧ Graph.RowWrite options.scope graph row ∧
      ∃ source descriptor pair old, owningSource prepared = some (source, descriptor) ∧
        prepared.endpoints = some pair ∧ pair.1.uri = options.scope.href ++ row.id ∧
        source.id = options.scope.href ++ row.id ∧ graph.resources[row.id]? = some old ∧
        IsBeadRow old ∧ old.body = .bead source ∧ bead.type = source.type ∧
        bead.properties = source.properties ∧ bead.metadata = source.metadata := by
  obtain ⟨subject, source, native, hversions⟩ := makeVersions_spec hmade
  rw [hversions.sourceAfter] at hafter
  obtain ⟨recipe, rfl, rfl⟩ := Option.map_eq_some_iff.mp hafter
  obtain ⟨-, hnone⟩ | ⟨found, descriptor, revision, owned, howning, -, -, hrecipe⟩ :=
    sourceRecipe_eq_ok hversions.sourceMade
  · cases hnone
  obtain ⟨pair, key, old, hpair, huri, hid, hold, hbead, hbody⟩ :=
    owningSource_spec h hr hprepared howning
  obtain ⟨hrowId, hrowEq⟩ := writtenRow_eq_ok.mp hrow
  have hrecipeId : (ResourceRecord.bead (materializeBead native recipe)).id = found.id := by
    rw [Option.some.inj hrecipe]
    rfl
  have hkey : row.id = key := by
    rw [hrecipeId, hid] at hrowId
    exact ((String.append_right_inj _).mp hrowId).symm
  subst hkey
  have hrowBody : row.body = .bead (materializeBead native recipe) := by rw [hrowEq]
  have hrowShape : row.shape = .bead := by rw [hrowEq]; rfl
  have hkept : (materializeBead native recipe).type = found.type ∧
      (materializeBead native recipe).properties = found.properties ∧
      (materializeBead native recipe).metadata = found.metadata := by
    rw [Option.some.inj hrecipe]
    exact ⟨rfl, rfl, rfl⟩
  refine ⟨hrowBody, ?_, found, descriptor, pair, old, howning, hpair, huri, hid, hold, hbead,
    hbody, hkept⟩
  constructor
  case keyed => rw [hrowBody, hrowId]
  case shaped => rw [hrowShape, hrowBody]; rfl
  case kept =>
    intro other hother
    obtain rfl := Option.some.inj (hold.symm.trans hother)
    rw [h.shaped _ old hold, hbody, hrowShape]
    rfl
  case fresh => exact fun hnew ↦ absurd (Table.mem_of_lookup hold) hnew
  case linked =>
    intro name hname
    rw [hrowBody] at hname
    cases hname
  case anchored =>
    intro hlink
    rw [StoredResource.kind, hrowShape] at hlink
    cases hlink
  case absolute =>
    intro reference hmem
    rw [hrowBody] at hmem
    cases hmem

end Source

end Bdp.Evaluator
