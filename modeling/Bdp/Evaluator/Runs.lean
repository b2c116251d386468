import Bdp.Evaluator.Effects

/-!
# Runs of mutations

Every step of a run in which creations take plain identities keeps the graph consistent, keeps the
committed identities, and brings no deleted Resource back. The aliases that a member has captured
lead to committed Beads, because identities are never given up.
-/

namespace Bdp.Evaluator

open Recovery (ResourceKind ResourceShape)
open Transaction (Reference)
open UrlPath (Scope hasScheme)
open Bdp.Except (bind_eq_ok pure_eq_ok_iff)

variable {config : GraphConfiguration} {graph after : Graph} {scope : Scope}
variable {rows : List StoredResource} {row : StoredResource}

section Writes

/-- Rows that may be written one after another: all but the first are there already. -/
structure WriteSet (scope : Scope) (graph : Graph) (rows : List StoredResource) : Prop where
  rowWrites : ∀ row ∈ rows, Graph.RowWrite scope graph row
  later : ∀ row ∈ rows.tail, row.id ∈ graph.resources
  nodup : (rows.map StoredResource.id).Nodup

/-- What writing such rows leaves. -/
structure Written (scope : Scope) (graph : Graph) (rows : List StoredResource) (after : Graph) :
    Prop where
  consistent : Graph.Consistent scope after
  extends_ : Graph.Extends graph after
  resources : after.resources =
    graph.resources.insertRows (rows.map fun row ↦ (row.id, row))
  aliases : after.aliases = graph.aliases
  revisions : after.revisions = graph.revisions

theorem putResource_eq_ok (h : graph.putResource config row = .ok after) :
    after = graph.insertRow row := by
  unfold Graph.putResource at h
  cases hstore : config.store with
  | recovery =>
    simp only [hstore, check_bind_eq_ok] at h
    exact pure_eq_ok_iff.mp h.2
  | transaction =>
    simp only [hstore] at h
    exact pure_eq_ok_iff.mp h

theorem written_of_fold (h : Graph.Consistent scope graph) (hrows : WriteSet scope graph rows)
    (hfold : rows.foldlM (fun graph row ↦ graph.putResource config row) graph = .ok after) :
    Written scope graph rows after := by
  induction rows generalizing graph with
  | nil =>
    obtain rfl := Except.ok.inj hfold
    exact ⟨h, Graph.Extends.refl _, rfl, rfl, rfl⟩
  | cons row rows ih =>
    rw [List.foldlM_cons] at hfold
    obtain ⟨middle, hput, hfold⟩ := bind_eq_ok.mp hfold
    obtain rfl := putResource_eq_ok hput
    have hwrite := hrows.rowWrites row List.mem_cons_self
    obtain ⟨hnotMem, hnodup⟩ := List.nodup_cons.mp hrows.nodup
    have hthere (other : StoredResource) (hother : other ∈ rows) :
        other.id ∈ (graph.insertRow row).resources := by
      rw [hwrite.insertRow_resources h]
      exact Table.mem_insert.mpr (.inr (hrows.later other hother))
    have hset : WriteSet scope (graph.insertRow row) rows := by
      refine ⟨fun other hother ↦ ?_, fun other hother ↦ hthere other (List.mem_of_mem_tail hother),
        hnodup⟩
      refine hwrite.after_insertRow h (hrows.rowWrites other (List.mem_cons_of_mem _ hother))
        (hrows.later other hother) fun heq ↦ hnotMem ?_
      rw [heq]
      exact List.mem_map_of_mem hother
    have hwritten := ih (h.insertRow hwrite) hset hfold
    refine ⟨hwritten.consistent, (hwrite.extends h).trans hwritten.extends_, ?_,
      hwritten.aliases, hwritten.revisions⟩
    rw [hwritten.resources, hwrite.insertRow_resources h]
    rfl

end Writes

section Mutations

variable {options : ResourceEvaluationOptions} {tx : ResourceTransaction}
  {mutation : ResourceMutation} {evaluation : ResourceEvaluation} {prepared : Prepared}
  {versions : Versions}

variable {noOp : Bool}

theorem writtenRows_eq_ok (h : writtenRows options noOp versions = .ok rows) :
    noOp = true ∧ rows = [] ∨ noOp = false ∧ ∃ subject source : Option StoredResource,
      rows = subject.toList ++ source.toList ∧
      Option.Rel (fun record row ↦ writtenRow options record = .ok row) versions.after subject ∧
      Option.Rel (fun bead row ↦ writtenRow options (.bead bead) = .ok row) versions.sourceAfter
        source := by
  unfold writtenRows at h
  split at h
  next hnoOp => exact .inl ⟨hnoOp, (Except.ok.inj h).symm⟩
  next hnoOp =>
    refine .inr ⟨Bool.eq_false_of_not_eq_true hnoOp, ?_⟩
    have hrows := mapM_eq_ok.mp h
    unfold Versions.records at hrows
    cases hafter : versions.after with
    | none =>
      cases hsource : versions.sourceAfter with
      | none =>
        rw [hafter, hsource] at hrows
        cases hrows
        exact ⟨none, none, rfl, .none, .none⟩
      | some bead =>
        rw [hafter, hsource] at hrows
        obtain _ | ⟨hrow, hrest⟩ := hrows
        cases hrest
        exact ⟨none, some _, rfl, .none, .some hrow⟩
    | some record =>
      cases hsource : versions.sourceAfter with
      | none =>
        rw [hafter, hsource] at hrows
        obtain _ | ⟨hrow, hrest⟩ := hrows
        cases hrest
        exact ⟨some _, none, rfl, .some hrow, .none⟩
      | some bead =>
        rw [hafter, hsource] at hrows
        obtain _ | ⟨hrow, hrest⟩ := hrows
        obtain _ | ⟨hrow', hrest⟩ := hrest
        cases hrest
        exact ⟨some _, some _, rfl, .some hrow, .some hrow'⟩

theorem subject_ne_source (h : Graph.Consistent options.scope graph) (hr : Reads graph tx)
    (hprepared : IsPrepared options tx mutation prepared)
    (hplain : mutation.creating = true → hasScheme prepared.subject.id = false)
    (hpair : prepared.endpoints.isSome) {key : String}
    (hrow : graph.resources[key]? = some row) (hbead : IsBeadRow row) :
    prepared.subject.id ≠ key := by
  rintro rfl
  obtain ⟨hcreating, hcreated⟩ | ⟨-, name, record, hfound⟩ := mutationSubject_spec hprepared.subject
  · exact (hcreated.fresh h hr (hplain hcreating)).2.2 (Table.mem_of_lookup hrow)
  · obtain ⟨-, found, hother, hkind, -⟩ := hfound.row h hr
    obtain rfl := Option.some.inj (hrow.symm.trans hother)
    obtain ⟨hbeadKind, hnone⟩ | ⟨hlink, -⟩ := mutationEndpoints_spec hprepared.endpoints
    · rw [hnone] at hpair
      cases hpair
    · rw [IsBeadRow, hkind, hlink] at hbead
      cases hbead

/-- What a successful mutation does to the graph that it reads. -/
structure Effect (scope : Scope) (graph : Graph) (evaluation : ResourceEvaluation) : Prop where
  writes : WriteSet scope graph evaluation.writes
  deleted : ∀ id, evaluation.deleted = some id → ∃ row, graph.resources[id]? = some row ∧
    (IsBeadRow row → graph.incidentLinks id = [] ∧ evaluation.writes = []) ∧
    id ∉ evaluation.writes.map StoredResource.id

theorem incidentLinks_eq (hr : Reads graph tx) (id : String) :
    tx.incidentLinks id = graph.incidentLinks id := by
  rw [ResourceTransaction.incidentLinks, ResourceTransaction.rows, hr.resources]
  rfl

theorem endpoints_of_sourceAfter {bead : BeadRecord}
    (hmade : makeVersions options tx mutation prepared noOp = .ok versions)
    (hprepared : IsPrepared options tx mutation prepared)
    (hafter : versions.sourceAfter = some bead) : prepared.endpoints.isSome := by
  obtain ⟨subject, source, native, hversions⟩ := makeVersions_spec hmade
  rw [hversions.sourceAfter] at hafter
  obtain ⟨recipe, rfl, -⟩ := Option.map_eq_some_iff.mp hafter
  obtain ⟨-, hnone⟩ | ⟨found, descriptor, -, -, howning, -⟩ :=
    sourceRecipe_eq_ok hversions.sourceMade
  · cases hnone
  · cases hpair : prepared.endpoints with
    | none =>
      have hsource := hprepared.source
      rw [hpair] at hsource
      rw [owningSource, ← Except.ok.inj hsource] at howning
      cases howning
    | some pair => rfl

theorem Evaluated.effect (h : Graph.Consistent options.scope graph) (hr : Reads graph tx)
    (he : Evaluated options tx mutation evaluation prepared versions)
    (hplain : mutation.creating = true → hasScheme prepared.subject.id = false)
    (hunaliased : mutation.creating = true →
      ∀ path, aliasPath prepared.subject.id = some path → path ∉ graph.aliases) :
    Effect options.scope graph evaluation := by
  have hprepared := he.isPrepared
  have hrows := writtenRows_eq_ok he.writes
  have hsubject {record : ResourceRecord} {row : StoredResource}
      (hafter : versions.after = some record) (hrow : writtenRow options record = .ok row) :=
    subject_rowWrite h hr hprepared he.made hplain hunaliased hafter hrow
  have hsource {bead : BeadRecord} {row : StoredResource}
      (hafter : versions.sourceAfter = some bead)
      (hrow : writtenRow options (.bead bead) = .ok row) :
      Graph.RowWrite options.scope graph row ∧ row.id ∈ graph.resources ∧
        prepared.subject.id ≠ row.id := by
    obtain ⟨-, hwrite, _, _, _, old, -, -, -, -, hold, hbead, -⟩ :=
      source_rowWrite h hr hprepared he.made hafter hrow
    exact ⟨hwrite, Table.mem_of_lookup hold, subject_ne_source h hr hprepared hplain
      (endpoints_of_sourceAfter he.made hprepared hafter) hold hbead⟩
  constructor
  case writes =>
    obtain ⟨-, hnil⟩ | ⟨-, subject, source, heq, hsubjectRow, hsourceRow⟩ := hrows
    · rw [hnil]
      exact ⟨by simp, by simp, List.nodup_nil⟩
    · rw [heq]
      generalize hafter : versions.after = record at hsubjectRow
      generalize hsourceAfter : versions.sourceAfter = bead at hsourceRow
      cases hsubjectRow with
      | none =>
        cases hsourceRow with
        | none => exact ⟨by simp, by simp, List.nodup_nil⟩
        | some hrow' =>
          obtain ⟨hwrite, -, -⟩ := hsource hsourceAfter hrow'
          refine ⟨fun row hmem ↦ ?_, by simp, List.nodup_singleton _⟩
          obtain rfl := List.mem_singleton.mp hmem
          exact hwrite
      | some hrow =>
        obtain ⟨hid, -, hwrite⟩ := hsubject hafter hrow
        cases hsourceRow with
        | none =>
          refine ⟨fun row hmem ↦ ?_, by simp, List.nodup_singleton _⟩
          obtain rfl := List.mem_singleton.mp hmem
          exact hwrite
        | some hrow' =>
          obtain ⟨hwrite', hthere, hne⟩ := hsource hsourceAfter hrow'
          refine ⟨fun row hmem ↦ ?_, fun row hmem ↦ ?_, ?_⟩
          · obtain rfl | hmem := List.mem_cons.mp hmem
            · exact hwrite
            · obtain rfl := List.mem_singleton.mp hmem
              exact hwrite'
          · obtain rfl := List.mem_singleton.mp hmem
            exact hthere
          · simpa [hid] using hne
  case deleted =>
    intro id hid
    rw [he.deleted] at hid
    split at hid
    case isFalse => cases hid
    next hdeleting =>
    obtain rfl := Option.some.inj hid
    have hcreating : mutation.creating = false := by
      cases mutation <;> first | rfl | cases hdeleting
    obtain ⟨htrue, -⟩ | ⟨-, name, record, hfound⟩ := mutationSubject_spec hprepared.subject
    · rw [hcreating] at htrue
      cases htrue
    obtain ⟨-, row, hrow, hkind, -⟩ := hfound.row h hr
    have hafter : versions.after = none := by
      cases hafter : versions.after with
      | none => rfl
      | some record =>
        rw [(after_spec hprepared he.made hafter).1] at hdeleting
        cases hdeleting
    refine ⟨row, hrow, fun hbead ↦ ?_, ?_⟩
    · have hresourceKind : mutation.resourceKind = .bead := hkind.symm.trans hbead
      have hconditions := he.conditions
      unfold checkConditions at hconditions
      rw [check_bind_eq_ok, check_bind_eq_ok] at hconditions
      have hfree := hconditions.2.1
      rw [incidentLinks_eq hr] at hfree
      refine ⟨by tauto, ?_⟩
      obtain ⟨-, hnil⟩ | ⟨-, subject, source, heq, hsubjectRow, hsourceRow⟩ := hrows
      · exact hnil
      · rw [hafter] at hsubjectRow
        cases hsubjectRow
        cases hsourceAfter : versions.sourceAfter with
        | none =>
          rw [hsourceAfter] at hsourceRow
          cases hsourceRow
          exact heq
        | some bead =>
          have hpair := endpoints_of_sourceAfter he.made hprepared hsourceAfter
          obtain ⟨-, hnone⟩ | ⟨hlink, -⟩ := mutationEndpoints_spec hprepared.endpoints
          · rw [hnone] at hpair
            cases hpair
          · rw [hresourceKind] at hlink
            cases hlink
    · obtain ⟨-, hnil⟩ | ⟨-, subject, source, heq, hsubjectRow, hsourceRow⟩ := hrows
      · rw [hnil]
        exact List.not_mem_nil
      · rw [hafter] at hsubjectRow
        cases hsubjectRow
        rw [heq]
        generalize hsourceAfter : versions.sourceAfter = bead at hsourceRow
        cases hsourceRow with
        | none => exact List.not_mem_nil
        | some hrow' => simpa using (hsource hsourceAfter hrow').2.2

end Mutations

section Identities

variable {context : MemberContext} {mutation : ResourceMutation} {past : List Graph}

/-- A spelling is plain unless it is absolute and goes on, behind the Scope, like an absolute URL
again. -/
def plainIdentity (scope : Scope) (spelling : String) : Bool :=
  !(hasScheme spelling && (scope.localPath spelling).any hasScheme)

/-- The identity of a creation as it is spelled: supplied, or allocated. -/
def MemberContext.identitySpelling (context : MemberContext) (mutation : ResourceMutation) :
    Option String :=
  match mutation.suppliedIdentity with
  | some spelling => some spelling
  | none => (context.allocateResourceId mutation.resourceKind).toOption

def PlainCreation (config : GraphConfiguration) (context : MemberContext)
    (mutation : ResourceMutation) : Prop :=
  mutation.creating = true → ∀ spelling, context.identitySpelling mutation = some spelling →
    plainIdentity config.scope spelling = true

variable {spelling : String}

theorem plainIdentity_iff {options : ResourceEvaluationOptions} {uri id : String}
    (huri : canonical options spelling = .ok uri) (hid : options.scope.resourcePath uri = some id) :
    plainIdentity options.scope spelling = true ↔ hasScheme id = false := by
  obtain ⟨huriId, -⟩ := UrlPath.Scope.resourcePath_eq_some.mp hid
  obtain ⟨hscheme, rfl⟩ | ⟨hscheme, -, rfl⟩ := canonical_eq_ok huri
  · rw [plainIdentity, hscheme, huriId, UrlPath.Scope.localPath_append]
    simp
  · obtain rfl := (String.append_right_inj _).mp huriId
    rw [plainIdentity, hscheme]
    simp

theorem creationSpelling_eq_ok
    (h : creationSpelling (graph.view config context) mutation.resourceKind
      mutation.suppliedIdentity = .ok spelling) :
    context.identitySpelling mutation = some spelling := by
  unfold MemberContext.identitySpelling
  cases hsupplied : mutation.suppliedIdentity with
  | some supplied =>
    rw [hsupplied] at h
    exact congrArg some (Except.ok.inj h)
  | none =>
    rw [hsupplied] at h
    obtain ⟨allocated, hallocated, h⟩ := bind_eq_ok.mp h
    rw [check_bind_eq_ok, pure_eq_ok_iff] at h
    obtain ⟨-, rfl⟩ := h
    change (context.allocateResourceId mutation.resourceKind).mapError Stop.fault = _ at hallocated
    cases hallocation : context.allocateResourceId mutation.resourceKind with
    | error message => rw [hallocation] at hallocated; cases hallocated
    | ok value =>
      rw [hallocation] at hallocated
      exact congrArg some (Except.ok.inj hallocated)

theorem plainCreation_iff {subject : Subject} (hcreating : mutation.creating = true)
    (hcreated : CreatedSubject (context.options config) (graph.view config context)
      mutation.resourceKind mutation.suppliedIdentity subject) :
    PlainCreation config context mutation ↔ hasScheme subject.id = false := by
  obtain ⟨spelling, uri, hspelling, huri, hid⟩ := hcreated.named
  have hspelled := creationSpelling_eq_ok hspelling
  constructor
  · intro hplain
    exact (plainIdentity_iff huri hid).mp (hplain hcreating spelling hspelled)
  · intro hplain _ other hother
    obtain rfl := Option.some.inj (hspelled.symm.trans hother)
    exact (plainIdentity_iff huri hid).mpr hplain

/-- Every graph of a run is consistent, and the last one extends it. -/
def Sound (scope : Scope) (past : List Graph) (graph : Graph) : Prop :=
  ∀ earlier ∈ graph :: past, Graph.Consistent scope earlier ∧ Graph.Extends earlier graph

theorem Sound.consistent (h : Sound scope past graph) : Graph.Consistent scope graph :=
  (h graph List.mem_cons_self).1

theorem lookup_mem {captured : List (String × Option String)} {path : String}
    {value : Option String} (h : captured.lookup path = some value) :
    (path, value) ∈ captured := by
  induction captured with
  | nil => cases h
  | cons entry captured ih =>
    rw [List.lookup_cons] at h
    split at h
    next heq =>
      obtain rfl := Option.some.inj h
      rw [beq_iff_eq] at heq
      exact heq ▸ List.mem_cons_self
    next => exact List.mem_cons_of_mem _ (ih h)

theorem Sound.reads (h : Sound config.scope past graph)
    (hcaptured : CapturedFrom config (graph :: past) context mutation) :
    Reads graph (graph.view config context) where
  resources := rfl
  ledger id hid := by
    change graph.identities.contains id = false at hid
    rw [← Std.ExtTreeMap.contains_iff_mem, hid]
    exact Bool.false_ne_true
  aliases path target htarget := by
    change (context.captured.lookup path).getD graph.aliases[path]? = some target at htarget
    cases hlookup : context.captured.lookup path with
    | none =>
      rw [hlookup] at htarget
      exact h.consistent.targets path target htarget
    | some value =>
      rw [hlookup] at htarget
      obtain rfl : value = some target := htarget
      obtain ⟨⟨earlier, hearlier, hvalue⟩, -⟩ := hcaptured _ (lookup_mem hlookup)
      obtain ⟨hcommitted, hplain⟩ := (h earlier hearlier).1.targets path target hvalue.symm
      exact ⟨(h earlier hearlier).2.identities target _ hcommitted, hplain⟩

/-- The alias path of a new identity is not live: a captured miss would be spelled by an endpoint,
and then the endpoint is refused. -/
theorem creation_unaliased {evaluation : ResourceEvaluation} {prepared : Prepared}
    {versions : Versions} (hcaptured : CapturedFrom config (graph :: past) context mutation)
    (he : Evaluated (context.options config) (graph.view config context) mutation evaluation
      prepared versions) (hcreating : mutation.creating = true) :
    ∀ path, aliasPath prepared.subject.id = some path → path ∉ graph.aliases := by
  intro path hpath
  obtain ⟨-, hcreated⟩ | ⟨hfalse, -⟩ := mutationSubject_spec he.isPrepared.subject
  case inr => rw [hcreating] at hfalse; cases hfalse
  have halias := hcreated.unaliased
  rw [hpath, Option.bind_some] at halias
  have hmiss := halias
  change (context.captured.lookup path).getD graph.aliases[path]? = none at hmiss
  cases hlookup : context.captured.lookup path with
  | none =>
    rw [hlookup] at hmiss
    exact Table.lookup_eq_none_iff.mp hmiss
  | some value =>
    rw [hlookup] at hmiss
    obtain rfl : value = none := hmiss
    exfalso
    obtain ⟨reference, hreference, uri, huri, hspelled⟩ := (hcaptured _ (lookup_mem hlookup)).2 rfl
    have hrefused {given result : Reference} (hgiven : given.uri = reference)
        (hend : AdmittedEndpoint (context.options config) (graph.view config context) given result) :
        False := by
      obtain ⟨spelled, hspelling, ⟨hnone, -⟩ | ⟨other, target, hother, htarget, -⟩⟩ :=
        resolve_bead_eq_ok hend.resolved
      · rw [hgiven, huri] at hspelling
        rw [← Except.ok.inj hspelling] at hnone
        exact absurd (hspelled.symm.trans hnone) (by simp)
      · rw [hgiven, huri] at hspelling
        rw [← Except.ok.inj hspelling] at hother
        rw [← Option.some.inj (hspelled.symm.trans hother), halias] at htarget
        cases htarget
    cases mutation with
    | createBead input => cases hreference
    | update kind input => cases hcreating
    | delete kind name expected => cases hcreating
    | createLink input source target =>
      obtain ⟨hbead, -⟩ | ⟨-, pair, -, hpair⟩ := mutationEndpoints_spec he.isPrepared.endpoints
      · cases hbead
      obtain ⟨first, second, hreferences, hfirst, hsecond⟩ := hpair.referenced
      obtain ⟨rfl, rfl⟩ := Prod.mk.inj (Option.some.inj hreferences)
      obtain rfl | hreference := List.mem_cons.mp hreference
      · exact hrefused rfl hfirst
      · obtain rfl := List.mem_singleton.mp hreference
        exact hrefused rfl hsecond

end Identities

section Steps

variable {context : MemberContext} {mutation : ResourceMutation} {past : List Graph}
  {evaluation : ResourceEvaluation}

/-- What a step leaves behind a consistent graph. -/
structure Applied (scope : Scope) (graph : Graph) (evaluation : ResourceEvaluation)
    (after : Graph) : Prop where
  consistent : Graph.Consistent scope after
  extends_ : Graph.Extends graph after
  lookup : ∀ key, after.resources[key]? = if evaluation.deleted = some key then none
    else (graph.resources.insertRows (evaluation.writes.map fun row ↦ (row.id, row)))[key]?
  revisions : after.revisions = graph.revisions + 2

theorem deleteResource_eq_ok {id : String} (h : graph.deleteResource config id = .ok after) :
    after = { graph with resources := graph.resources.erase id } := by
  unfold Graph.deleteResource at h
  cases hstore : config.store with
  | recovery =>
    simp only [hstore, check_bind_eq_ok] at h
    exact pure_eq_ok_iff.mp h.2
  | transaction =>
    simp only [hstore] at h
    exact pure_eq_ok_iff.mp h

theorem applied_of_effect (h : Graph.Consistent scope graph)
    (he : Effect scope graph evaluation) (happly : graph.apply config evaluation = .ok after) :
    Applied scope graph evaluation after := by
  unfold Graph.apply at happly
  obtain ⟨written, hwritten, happly⟩ := bind_eq_ok.mp happly
  have hw := written_of_fold h he.writes hwritten
  obtain ⟨removed, hremoved, happly⟩ := bind_eq_ok.mp happly
  obtain rfl := pure_eq_ok_iff.mp happly
  cases hdeleted : evaluation.deleted with
  | none =>
    rw [hdeleted] at hremoved
    obtain rfl := Except.ok.inj hremoved
    refine ⟨hw.consistent.drawn _, hw.extends_.drawn _, fun key ↦ ?_, ?_⟩
    · rw [hdeleted, if_neg (by simp), ← hw.resources]
    · rw [hw.revisions]
  | some id =>
    rw [hdeleted] at hremoved
    obtain rfl := deleteResource_eq_ok hremoved
    obtain ⟨row, hrow, hbead, hnotWritten⟩ := he.deleted id hdeleted
    have hrow' : written.resources[id]? = some row := by
      rw [hw.resources, Table.insertRows_of_not_mem, hrow]
      simpa using hnotWritten
    have hfree : IsBeadRow row → written.incidentLinks id = [] := by
      intro hisBead
      obtain ⟨hfree, hnil⟩ := hbead hisBead
      rw [hnil] at hwritten
      obtain rfl := Except.ok.inj hwritten
      exact hfree
    refine ⟨(hw.consistent.erase hfree hrow').drawn _,
      (hw.extends_.trans (Graph.extends_erase written id)).drawn _, fun key ↦ ?_, ?_⟩
    · rw [hdeleted, ← hw.resources, Table.lookup_erase]
      simp
    · rw [← hw.revisions]

theorem Sound.effect (h : Sound config.scope past graph)
    (hcaptured : CapturedFrom config (graph :: past) context mutation)
    (hplain : PlainCreation config context mutation)
    (hevaluated : evaluate (context.options config) (graph.view config context) mutation =
      .ok evaluation) : Effect config.scope graph evaluation := by
  obtain ⟨prepared, versions, he⟩ := evaluate_spec hevaluated
  refine he.effect h.consistent (h.reads hcaptured) (fun hcreating ↦ ?_)
    (creation_unaliased hcaptured he)
  obtain ⟨-, hcreated⟩ | ⟨hfalse, -⟩ := mutationSubject_spec he.isPrepared.subject
  · exact (plainCreation_iff hcreating hcreated).mp hplain
  · rw [hcreating] at hfalse
    cases hfalse

theorem Sound.mutated (h : Sound config.scope past graph)
    (hcaptured : CapturedFrom config (graph :: past) context mutation)
    (hplain : PlainCreation config context mutation)
    (hstep : graph.Mutated config context mutation evaluation after) :
    Applied config.scope graph evaluation after :=
  applied_of_effect h.consistent (h.effect hcaptured hplain hstep.1) hstep.2

end Steps

section AliasSteps

variable {options : ResourceEvaluationOptions} {tx : ResourceTransaction}
  {canWriteBead : BeadRecord → Bool} {mutation : AliasMutation} {evaluation : AliasEvaluation}

variable {path target : String}

theorem proposedTarget_spec {record : BeadRecord}
    (h : proposedTarget options tx target = .ok (path, record)) :
    aliasPath path = none ∧ ∃ row, tx.resource path = some row ∧ IsBeadRow row := by
  unfold proposedTarget at h
  obtain ⟨uri, -, h⟩ := bind_eq_ok.mp h
  obtain ⟨found, -, h⟩ := bind_eq_ok.mp h
  split at h
  · cases h
  next other =>
  split at h
  · cases h
  next hplain =>
  obtain ⟨row, hrow, h⟩ := bind_eq_ok.mp h
  split at h
  · cases h
  next hbead =>
  obtain ⟨loaded, -, h⟩ := bind_eq_ok.mp h
  obtain ⟨rfl, rfl⟩ := Prod.mk.inj (pure_eq_ok_iff.mp h)
  refine ⟨?_, row, require_eq_ok.mp hrow, not_ne_iff.mp hbead⟩
  rwa [Bool.not_eq_true, Option.isSome_eq_false_iff, Option.isNone_iff_eq_none] at hplain

theorem evaluateAlias_put (h : evaluateAlias options canWriteBead tx mutation = .ok evaluation)
    (hchange : evaluation.change = .put path target) :
    tx.identityWasCommitted ("alias/" ++ path) = false ∧ aliasPath target = none ∧
      ∃ row, tx.resource target = some row ∧ IsBeadRow row := by
  unfold evaluateAlias at h
  obtain ⟨⟨locator, spelled⟩, -, h⟩ := bind_eq_ok.mp h
  cases mutation with
  | putAlias «alias» given =>
    rw [check_bind_eq_ok] at h
    obtain ⟨hfree, h⟩ := h
    obtain ⟨⟨id, record⟩, hproposed, h⟩ := bind_eq_ok.mp h
    obtain ⟨current, -, h⟩ := bind_eq_ok.mp h
    rw [check_bind_eq_ok, check_bind_eq_ok, pure_eq_ok_iff] at h
    obtain ⟨-, -, rfl⟩ := h
    simp only at hchange
    split at hchange
    · cases hchange
    · obtain ⟨rfl, rfl⟩ := AliasChange.put.inj hchange
      exact ⟨hfree, proposedTarget_spec hproposed⟩
  | deleteAlias «alias» =>
    obtain ⟨id, -, h⟩ := bind_eq_ok.mp h
    obtain ⟨current, -, h⟩ := bind_eq_ok.mp h
    rw [check_bind_eq_ok, pure_eq_ok_iff] at h
    rw [h.2] at hchange
    cases hchange

theorem putAlias_eq_ok (h : graph.putAlias config path target = .ok after) :
    after = { graph with aliases := graph.aliases.insert path target } := by
  unfold Graph.putAlias at h
  cases hstore : config.store with
  | recovery =>
    simp only [hstore, check_bind_eq_ok] at h
    exact pure_eq_ok_iff.mp h.2.2
  | transaction =>
    simp only [hstore] at h
    exact pure_eq_ok_iff.mp h

theorem applyAlias_tables {change : AliasChange} (h : graph.applyAlias config change = .ok after) :
    after.resources = graph.resources ∧ after.identities = graph.identities ∧
      after.revisions = graph.revisions := by
  unfold Graph.applyAlias at h
  cases change with
  | unchanged => exact Except.ok.inj h ▸ ⟨rfl, rfl, rfl⟩
  | delete path => exact Except.ok.inj h ▸ ⟨rfl, rfl, rfl⟩
  | put path target => exact putAlias_eq_ok h ▸ ⟨rfl, rfl, rfl⟩

theorem alias_step {context : MemberContext} (h : Graph.Consistent config.scope graph)
    (hstep : graph.AliasMutated config context mutation evaluation after) :
    Graph.Consistent config.scope after ∧ Graph.Extends graph after := by
  obtain ⟨hevaluated, happlied⟩ := hstep
  unfold Graph.applyAlias at happlied
  cases hchange : evaluation.change with
  | unchanged =>
    rw [hchange] at happlied
    obtain rfl := Except.ok.inj happlied
    exact ⟨h, Graph.Extends.refl _⟩
  | delete path =>
    rw [hchange] at happlied
    obtain rfl := Except.ok.inj happlied
    exact ⟨h.deleteAlias, ⟨fun _ _ hkey ↦ hkey, fun _ _ hrow ↦ hrow⟩⟩
  | put path target =>
    rw [hchange] at happlied
    obtain rfl := putAlias_eq_ok happlied
    obtain ⟨hfree, hplain, row, hrow, hbead⟩ := evaluateAlias_put hevaluated hchange
    change graph.identities.contains ("alias/" ++ path) = false at hfree
    refine ⟨h.putAlias ?_ ?_ hplain, ⟨fun _ _ hkey ↦ hkey, fun _ _ hrow ↦ hrow⟩⟩
    · rw [← Std.ExtTreeMap.contains_iff_mem, hfree]
      exact Bool.false_ne_true
    · exact (h.committed target row hrow).trans (congrArg some hbead)

end AliasSteps

section Runs

variable {past : List Graph}

theorem Sound.step (h : Sound scope past graph) (hconsistent : Graph.Consistent scope after)
    (hextends : Graph.Extends graph after) : Sound scope (graph :: past) after := by
  intro earlier hearlier
  obtain rfl | hearlier := List.mem_cons.mp hearlier
  · exact ⟨hconsistent, Graph.Extends.refl _⟩
  · exact ⟨(h earlier hearlier).1, (h earlier hearlier).2.trans hextends⟩

theorem GraphRun.mono {admits admits' : MemberContext → ResourceMutation → Prop}
    (h : ∀ context mutation, admits context mutation → admits' context mutation)
    (run : GraphRun config admits past graph) : GraphRun config admits' past graph := by
  induction run with
  | empty => exact .empty
  | mutated context mutation evaluation _ captured admitted step ih =>
    exact ih.mutated context mutation evaluation captured (h context mutation admitted) step
  | aliased context mutation evaluation _ step ih => exact ih.aliased context mutation evaluation step
  | unchanged _ ih => exact ih.unchanged

theorem GraphRun.sound (run : GraphRun config (PlainCreation config) past graph) :
    Sound config.scope past graph := by
  induction run with
  | empty =>
    intro earlier hearlier
    obtain rfl := List.mem_singleton.mp hearlier
    exact ⟨Graph.consistent_empty _, Graph.Extends.refl _⟩
  | mutated context mutation evaluation run captured admitted step ih =>
    have happlied := ih.mutated captured admitted step
    exact ih.step happlied.consistent happlied.extends_
  | aliased context mutation evaluation run step ih =>
    obtain ⟨hconsistent, hextends⟩ := alias_step ih.consistent step
    exact ih.step hconsistent hextends
  | unchanged run ih => exact ih.step ih.consistent (Graph.Extends.refl _)

end Runs

end Bdp.Evaluator
