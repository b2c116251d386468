import Bdp.Evaluator.Graph

/-!
# What the stages of the evaluator establish

One inversion lemma for each stage: what a successful stage has read and checked. Results about the
evaluator start from these and never unfold a stage again.
-/

namespace Bdp.Evaluator

open Recovery (ResourceKind ResourceShape)
open Retained (Json JsonObject)
open Transaction (Reference)
open UrlPath (hasScheme canonicalPath)
open Bdp.Except (bind_eq_ok ok_bind pure_eq_ok_iff)

variable {options : ResourceEvaluationOptions} {tx : ResourceTransaction}

section Reading

variable {spelling uri path : String} {stored : StoredResource} {record : ResourceRecord}
  {expected : ResourceKind}

theorem canonical_eq_ok (h : canonical options spelling = .ok uri) :
    hasScheme spelling = true ∧ uri = spelling ∨
      hasScheme spelling = false ∧ canonicalPath spelling = true ∧
        uri = options.scope.href ++ spelling := by
  unfold canonical at h
  rw [check_bind_eq_ok] at h
  obtain ⟨-, h⟩ := h
  split at h
  next hscheme => exact .inl ⟨hscheme, pure_eq_ok_iff.mp h ▸ rfl⟩
  next hscheme =>
    rw [Bool.not_eq_true] at hscheme
    rw [check_bind_eq_ok, require_eq_ok, UrlPath.Scope.resolve_plain hscheme,
      Option.some.injEq] at h
    exact .inr ⟨hscheme, h.1, h.2.symm⟩

theorem canonical_absolute (h : hasScheme spelling = true) :
    canonical options spelling = .ok spelling := by
  unfold canonical
  rw [check_of, ok_bind, if_pos h]
  · rfl
  · intro hat
    unfold hasScheme UrlPath.splitScheme at h
    cases hletters : spelling.toList with
    | nil => simp [hletters] at hat
    | cons letter rest =>
      rw [hletters] at hat h
      obtain rfl := Option.some.inj hat
      revert h
      simp

theorem hasScheme_of_canonical (h : canonical options spelling = .ok uri) :
    hasScheme uri = true := by
  obtain ⟨hscheme, rfl⟩ | ⟨-, -, rfl⟩ := canonical_eq_ok h
  · exact hscheme
  · exact UrlPath.Scope.hasScheme_append spelling

theorem resolve_bead_eq_ok (h : resolve options tx spelling .bead = .ok uri) :
    ∃ spelled, canonical options spelling = .ok spelled ∧
      ((options.scope.localPath spelled).bind aliasPath = none ∧ uri = spelled ∨
        ∃ path target, (options.scope.localPath spelled).bind aliasPath = some path ∧
          tx.alias path = some target ∧ target ≠ "" ∧
          options.scope.resolve target = some uri) := by
  unfold resolve at h
  obtain ⟨spelled, hspelled, h⟩ := bind_eq_ok.mp h
  refine ⟨spelled, hspelled, ?_⟩
  cases halias : (options.scope.localPath spelled).bind aliasPath with
  | none =>
    simp only [halias] at h
    exact .inl ⟨rfl, pure_eq_ok_iff.mp h⟩
  | some path =>
    simp only [halias] at h
    obtain ⟨target, htarget, h⟩ := bind_eq_ok.mp h
    obtain ⟨hlive, hnonempty⟩ := Option.filter_eq_some_iff.mp (require_eq_ok.mp htarget)
    exact .inr ⟨path, target, rfl, hlive, bne_iff_ne.mp hnonempty, require_eq_ok.mp h⟩

section

variable (h : canonical options spelling = .ok uri)
include h

theorem resolve_alias {target resolved : String}
    (halias : (options.scope.localPath uri).bind aliasPath = some path)
    (htarget : tx.alias path = some target) (hnonempty : target ≠ "")
    (hresolved : options.scope.resolve target = some resolved) :
    resolve options tx spelling .bead = .ok resolved := by
  unfold resolve
  rw [h, ok_bind]
  have hfilter : (tx.alias path).filter (fun target ↦ target != "") = some target := by
    rw [htarget]
    exact Option.filter_some_pos (bne_iff_ne.mpr hnonempty)
  simp only [halias, hfilter, require_some, ok_bind, hresolved]

theorem resolve_of_not_alias (halias : (options.scope.localPath uri).bind aliasPath = none) :
    resolve options tx spelling expected = .ok uri := by
  unfold resolve
  rw [h, ok_bind]
  cases expected with
  | bead => simp only [halias]; rfl
  | link => rfl

end

theorem storedRecord_eq_ok : storedRecord options stored = .ok record ↔
    record = stored.body ∧ stored.body.kind = stored.kind ∧ options.readable stored.body = true ∧
      options.scope.resourcePath stored.body.id = some stored.id := by
  unfold storedRecord
  rw [check_bind_eq_ok, check_bind_eq_ok, pure_eq_ok_iff]
  tauto

theorem loadVisible_eq_ok : loadVisible options tx uri expected = .ok record ↔
    ∃ path stored, options.scope.resourcePath uri = some path ∧ tx.resource path = some stored ∧
      stored.kind = expected ∧ storedRecord options stored = .ok record ∧
        isResourceVisible options tx record = .ok true := by
  unfold loadVisible
  simp only [bind_eq_ok, require_eq_ok, check_eq_ok, pure_eq_ok_iff, Option.bind_eq_some_iff]
  constructor
  · rintro ⟨stored, ⟨path, hpath, hrow⟩, -, hkind, found, hfound, visible, hvisible, -, rfl, rfl⟩
    exact ⟨path, stored, hpath, hrow, hkind, hfound, hvisible⟩
  · rintro ⟨path, stored, hpath, hrow, hkind, hfound, hvisible⟩
    exact ⟨stored, ⟨path, hpath, hrow⟩, (), hkind, record, hfound, true, hvisible, (), rfl, rfl⟩

theorem loadVisible_row (h : loadVisible options tx uri expected = .ok record) :
    ∃ path stored, uri = options.scope.href ++ path ∧ tx.resource path = some stored ∧
      stored.kind = expected ∧ record = stored.body ∧ record.kind = expected ∧
        record.id = options.scope.href ++ stored.id := by
  obtain ⟨path, stored, hpath, hrow, hkind, hrecord, -⟩ := loadVisible_eq_ok.mp h
  obtain ⟨rfl, hbody, -, hid⟩ := storedRecord_eq_ok.mp hrecord
  exact ⟨path, stored, (UrlPath.Scope.resourcePath_eq_some.mp hpath).1, hrow, hkind, rfl,
    hbody.trans hkind, (UrlPath.Scope.resourcePath_eq_some.mp hid).1⟩

end Reading

section Subjects

variable {kind : ResourceKind} {supplied : Option String} {subject : Subject} {name : String}

/-- What is checked of a new identity. -/
structure CreatedSubject (options : ResourceEvaluationOptions) (tx : ResourceTransaction)
    (kind : ResourceKind) (supplied : Option String) (subject : Subject) : Prop where
  named : ∃ spelling uri, creationSpelling tx kind supplied = .ok spelling ∧
    canonical options spelling = .ok uri ∧ options.scope.resourcePath uri = some subject.id
  resolved : options.scope.resolve subject.id = some subject.uri
  uncommitted : tx.identityWasCommitted subject.id = false
  unaliased : (aliasPath subject.id).bind tx.alias = none
  before : subject.before = none

theorem creationSubject_spec (h : creationSubject options tx kind supplied = .ok subject) :
    CreatedSubject options tx kind supplied subject := by
  unfold creationSubject at h
  obtain ⟨spelling, hspelling, h⟩ := bind_eq_ok.mp h
  obtain ⟨uri, huri, h⟩ := bind_eq_ok.mp h
  obtain ⟨id, hid, h⟩ := bind_eq_ok.mp h
  rw [check_bind_eq_ok] at h
  obtain ⟨resolved, hresolved, h⟩ := bind_eq_ok.mp h.2
  rw [check_bind_eq_ok, check_bind_eq_ok, pure_eq_ok_iff] at h
  obtain ⟨huncommitted, hunaliased, rfl⟩ := h
  exact ⟨⟨spelling, uri, hspelling, huri, require_eq_ok.mp hid⟩, require_eq_ok.mp hresolved,
    huncommitted, hunaliased, rfl⟩

/-- What is read of an existing subject. -/
structure FoundSubject (options : ResourceEvaluationOptions) (tx : ResourceTransaction)
    (kind : ResourceKind) (name : String) (subject : Subject) (record : ResourceRecord) :
    Prop where
  loaded : ∃ uri, resolve options tx name kind = .ok uri ∧
    loadVisible options tx uri kind = .ok record
  before : subject.before = some record
  named : record.id = options.scope.href ++ subject.id
  resolved : options.scope.resolve subject.id = some subject.uri

theorem existingSubject_spec (h : existingSubject options tx kind name = .ok subject) :
    ∃ record, FoundSubject options tx kind name subject record := by
  unfold existingSubject at h
  obtain ⟨uri, huri, h⟩ := bind_eq_ok.mp h
  obtain ⟨record, hrecord, h⟩ := bind_eq_ok.mp h
  obtain ⟨id, hid, h⟩ := bind_eq_ok.mp h
  obtain ⟨resolved, hresolved, h⟩ := bind_eq_ok.mp h
  obtain rfl := pure_eq_ok_iff.mp h
  exact ⟨record, ⟨uri, huri, hrecord⟩, rfl,
    UrlPath.Scope.localPath_eq_some.mp (require_eq_ok.mp hid), require_eq_ok.mp hresolved⟩

end Subjects

section Endpoints

variable {reference result source target : Reference} {mutation : ResourceMutation}
  {before : Option ResourceRecord} {endpoints : Option Endpoints} {found : Option BeadRecord}
  {uri : String}

theorem diagnosticFailure_ne_ok {α : Type} {diagnostics : List ValidationDiagnostic} {value : α} :
    diagnosticFailure options diagnostics ≠ .ok value := by
  intro h
  unfold diagnosticFailure at h
  obtain ⟨retained, _, h⟩ := bind_eq_ok.mp h
  by_cases hretained : retained.1 = []
  · simp [hretained] at h
  · simp [hretained] at h

theorem checkEndpoint_eq_ok (h : checkEndpoint options tx uri = .ok ()) :
    options.scope.localPath uri = none ∨
      ∃ record, loadVisible options tx uri .bead = .ok record := by
  unfold checkEndpoint at h
  split at h
  next hpath => exact .inl hpath
  next path _ =>
    split at h
    · exact absurd h diagnosticFailure_ne_ok
    · obtain ⟨record, hrecord, -⟩ := bind_eq_ok.mp h
      exact .inr ⟨record, hrecord⟩

/-- An admitted endpoint is the URL that its reference resolves to; in the Scope it names a visible
Bead. -/
structure AdmittedEndpoint (options : ResourceEvaluationOptions) (tx : ResourceTransaction)
    (reference result : Reference) : Prop where
  resolved : resolve options tx reference.uri .bead = .ok result.uri
  revision : result.revision = reference.revision
  visible : options.scope.localPath result.uri = none ∨
    ∃ record, loadVisible options tx result.uri .bead = .ok record

theorem endpoint_spec (h : endpoint options tx reference = .ok result) :
    AdmittedEndpoint options tx reference result := by
  unfold endpoint at h
  obtain ⟨uri, huri, h⟩ := bind_eq_ok.mp h
  obtain ⟨_, hchecked, h⟩ := bind_eq_ok.mp h
  obtain rfl := pure_eq_ok_iff.mp h
  exact ⟨huri, rfl, checkEndpoint_eq_ok hchecked⟩

/-- The endpoints of a Link mutation: both admitted, and one of them in the Scope unless the Link is
deleted. -/
structure LinkEndpoints (options : ResourceEvaluationOptions) (tx : ResourceTransaction)
    (mutation : ResourceMutation) (before : Option ResourceRecord) (endpoints : Endpoints) :
    Prop where
  referenced : ∃ source target, linkReferences mutation before = some (source, target) ∧
    AdmittedEndpoint options tx source endpoints.1 ∧
    AdmittedEndpoint options tx target endpoints.2
  inScope : mutation.deleting = false →
    (options.scope.localPath endpoints.1.uri).isSome ∨
      (options.scope.localPath endpoints.2.uri).isSome

theorem mutationEndpoints_spec (h : mutationEndpoints options tx mutation before = .ok endpoints) :
    mutation.resourceKind = .bead ∧ endpoints = none ∨ mutation.resourceKind = .link ∧
        ∃ pair, endpoints = some pair ∧ LinkEndpoints options tx mutation before pair := by
  unfold mutationEndpoints at h
  cases hkind : mutation.resourceKind with
  | bead =>
    rw [hkind] at h
    exact .inl ⟨rfl, (Except.ok.inj h).symm⟩
  | link =>
    rw [hkind] at h
    obtain ⟨references, hreferences, h⟩ := bind_eq_ok.mp h
    obtain ⟨pair, hpair, h⟩ := bind_eq_ok.mp h
    obtain ⟨source, hsource, hpair⟩ := bind_eq_ok.mp hpair
    obtain ⟨target, htarget, hpair⟩ := bind_eq_ok.mp hpair
    obtain rfl := pure_eq_ok_iff.mp hpair
    split at h
    · exact absurd h diagnosticFailure_ne_ok
    · next hscope =>
      refine .inr ⟨rfl, (source, target), (pure_eq_ok_iff.mp h), ?_, ?_⟩
      · exact ⟨references.1, references.2, require_eq_ok.mp hreferences, endpoint_spec hsource,
          endpoint_spec htarget⟩
      · intro hdeleting
        rw [Option.isSome_iff_ne_none, Option.isSome_iff_ne_none]
        tauto

theorem sourceBead_spec {pair : Endpoints} {bead : BeadRecord}
    (h : sourceBead options tx (some pair) = .ok (some bead)) :
    ∃ id uri, options.scope.localPath pair.1.uri = some id ∧ options.scope.resolve id = some uri ∧
      loadVisible options tx uri .bead = .ok (.bead bead) := by
  simp only [sourceBead] at h
  split at h
  · cases h
  next id hid =>
  obtain ⟨uri, huri, h⟩ := bind_eq_ok.mp h
  obtain ⟨record, hrecord, h⟩ := bind_eq_ok.mp h
  obtain ⟨found, hfound, h⟩ := bind_eq_ok.mp h
  obtain rfl := Option.some.inj (pure_eq_ok_iff.mp h)
  refine ⟨id, uri, hid, require_eq_ok.mp huri, ?_⟩
  cases record with
  | bead record => rwa [← Option.some.inj (require_eq_ok.mp hfound)]
  | link record => cases require_eq_ok.mp hfound

end Endpoints

section Preparation

variable {mutation : ResourceMutation} {prepared : Prepared}

/-- What a prepared mutation has read. -/
structure IsPrepared (options : ResourceEvaluationOptions) (tx : ResourceTransaction)
    (mutation : ResourceMutation) (prepared : Prepared) : Prop where
  subject : mutationSubject options tx mutation = .ok prepared.subject
  type : mutationType mutation prepared.subject.before = some prepared.type
  endpoints : mutationEndpoints options tx mutation prepared.subject.before =
    .ok prepared.endpoints
  effective : contracts options tx prepared.type = .ok prepared.effective
  declared : declaredType prepared.type prepared.effective = some prepared.declared
  kind : prepared.declared.describes.kind = mutation.resourceKind
  source : sourceBead options tx prepared.endpoints = .ok prepared.source
  sourceType : sourceType options tx prepared.source = .ok prepared.sourceDescriptor

theorem prepare_spec (h : prepare options tx mutation = .ok prepared) :
    IsPrepared options tx mutation prepared := by
  unfold prepare at h
  obtain ⟨subject, hsubject, h⟩ := bind_eq_ok.mp h
  obtain ⟨type, htype, h⟩ := bind_eq_ok.mp h
  obtain ⟨endpoints, hendpoints, h⟩ := bind_eq_ok.mp h
  obtain ⟨effective, heffective, h⟩ := bind_eq_ok.mp h
  obtain ⟨declared, hdeclared, h⟩ := bind_eq_ok.mp h
  split at h
  · exact absurd h diagnosticFailure_ne_ok
  next hkind =>
  obtain ⟨checks, -, h⟩ := bind_eq_ok.mp h
  obtain ⟨source, hsource, h⟩ := bind_eq_ok.mp h
  obtain ⟨properties, -, h⟩ := bind_eq_ok.mp h
  obtain ⟨metadata, -, h⟩ := bind_eq_ok.mp h
  obtain ⟨_, -, h⟩ := bind_eq_ok.mp h
  obtain ⟨_, -, h⟩ := bind_eq_ok.mp h
  obtain ⟨sourceDescriptor, hsourceType, h⟩ := bind_eq_ok.mp h
  obtain rfl := pure_eq_ok_iff.mp h
  exact ⟨hsubject, require_eq_ok.mp htype, hendpoints, heffective, require_eq_ok.mp hdeclared,
    not_ne_iff.mp hkind, hsource, hsourceType⟩

end Preparation

section Versions

variable {mutation : ResourceMutation} {prepared : Prepared} {noOp : Bool} {versions : Versions}
  {subject : Option SubjectRecipe} {source : Option BeadRecipe}

theorem subjectRecipe_eq_ok (h : subjectRecipe options tx mutation prepared noOp = .ok subject) :
    mutation.deleting = true ∧ subject = none ∨ mutation.deleting = false ∧ ∃ revision,
        subjectRevision tx noOp prepared.subject.before = .ok revision ∧
        let version := subjectVersion options mutation prepared noOp revision
        ((∃ pair, prepared.endpoints = some pair ∧ subject = some (.link
            { version with source := pair.1, target := pair.2 })) ∨
          prepared.endpoints = none ∧ ∃ owned,
            ownedLinksOf options tx version.id prepared.declared none none = .ok owned ∧
            subject = some (.bead { version with ownedLinks := owned })) := by
  unfold subjectRecipe at h
  split at h
  next hdeleting => exact .inl ⟨hdeleting, (Except.ok.inj h).symm⟩
  next hdeleting =>
    obtain ⟨revision, hrevision, h⟩ := bind_eq_ok.mp h
    refine .inr ⟨Bool.eq_false_of_not_eq_true hdeleting, revision, hrevision, ?_⟩
    simp only at h
    split at h
    next pair hpair => exact .inl ⟨pair, hpair, pure_eq_ok_iff.mp h⟩
    next hnone =>
      obtain ⟨owned, howned, h⟩ := bind_eq_ok.mp h
      exact .inr ⟨hnone, owned, howned, pure_eq_ok_iff.mp h⟩

/-- The Link recipe among recipes of the subject. -/
def SubjectRecipe.link? : Option SubjectRecipe → Option LinkRecipe
  | some (.link recipe) => some recipe
  | _ => none

theorem sourceRecipe_eq_ok
    (h : sourceRecipe options tx mutation prepared noOp subject = .ok source) :
    owningSource prepared = none ∧ source = none ∨
      ∃ bead descriptor revision owned, owningSource prepared = some (bead, descriptor) ∧
        sourceRevision tx mutation noOp bead = .ok revision ∧
        ownedLinksOf options tx bead.id descriptor (SubjectRecipe.link? subject)
          (if mutation.deleting then some prepared.subject.id else none) = .ok owned ∧
        source = some
          { id := bead.id, type := bead.type, revision, properties := bead.properties
            metadata := bead.metadata
            actor := (versionMetadata options mutation noOp (some (.bead bead))).1
            context := (versionMetadata options mutation noOp (some (.bead bead))).2
            ownedLinks := owned } := by
  unfold sourceRecipe at h
  split at h
  next hnone => exact .inl ⟨hnone, (Except.ok.inj h).symm⟩
  next bead descriptor howning =>
    obtain ⟨revision, hrevision, h⟩ := bind_eq_ok.mp h
    obtain ⟨owned, howned, h⟩ := bind_eq_ok.mp h
    exact .inr ⟨bead, descriptor, revision, owned, howning, hrevision, howned, pure_eq_ok_iff.mp h⟩

/-- The recipes behind new versions. -/
structure MadeVersions (options : ResourceEvaluationOptions) (tx : ResourceTransaction)
    (mutation : ResourceMutation) (prepared : Prepared) (noOp : Bool) (versions : Versions)
    (subject : Option SubjectRecipe) (source : Option BeadRecipe) (native : JsonObject) :
    Prop where
  subjectMade : subjectRecipe options tx mutation prepared noOp = .ok subject
  sourceMade : sourceRecipe options tx mutation prepared noOp subject = .ok source
  after : versions.after = subject.map (materializeSubject native)
  sourceAfter : versions.sourceAfter = source.map (materializeBead native)

theorem makeVersions_spec (h : makeVersions options tx mutation prepared noOp = .ok versions) :
    ∃ subject source native,
      MadeVersions options tx mutation prepared noOp versions subject source native := by
  unfold makeVersions at h
  obtain ⟨subject, hsubject, h⟩ := bind_eq_ok.mp h
  obtain ⟨source, hsource, h⟩ := bind_eq_ok.mp h
  obtain ⟨_, -, h⟩ := bind_eq_ok.mp h
  obtain ⟨native, -, h⟩ := bind_eq_ok.mp h
  obtain rfl := pure_eq_ok_iff.mp h
  exact ⟨subject, source, native, hsubject, hsource, rfl, rfl⟩

/-- What a successful mutation has made. -/
structure Evaluated (options : ResourceEvaluationOptions) (tx : ResourceTransaction)
    (mutation : ResourceMutation) (evaluation : ResourceEvaluation) (prepared : Prepared)
    (versions : Versions) : Prop where
  isPrepared : IsPrepared options tx mutation prepared
  made : makeVersions options tx mutation prepared (isNoOp mutation prepared) = .ok versions
  conditions : checkConditions options tx mutation prepared = .ok ()
  outcome : mutationOutcome mutation prepared versions = .ok evaluation.outcome
  writes : writtenRows options (isNoOp mutation prepared) versions = .ok evaluation.writes
  deleted : evaluation.deleted = if mutation.deleting then some prepared.subject.id else none

theorem evaluate_spec {evaluation : ResourceEvaluation}
    (h : evaluate options tx mutation = .ok evaluation) :
    ∃ prepared versions, Evaluated options tx mutation evaluation prepared versions := by
  unfold evaluate at h
  obtain ⟨prepared, hprepared, h⟩ := bind_eq_ok.mp h
  obtain ⟨versions, hversions, h⟩ := bind_eq_ok.mp h
  obtain ⟨_, -, h⟩ := bind_eq_ok.mp h
  obtain ⟨_, hconditions, h⟩ := bind_eq_ok.mp h
  obtain ⟨_, -, h⟩ := bind_eq_ok.mp h
  obtain ⟨outcome, houtcome, h⟩ := bind_eq_ok.mp h
  obtain ⟨writes, hwrites, h⟩ := bind_eq_ok.mp h
  obtain rfl := pure_eq_ok_iff.mp h
  exact ⟨prepared, versions, prepare_spec hprepared, hversions, hconditions, houtcome, hwrites, rfl⟩

theorem writtenRow_eq_ok {record : ResourceRecord} {row : StoredResource} :
    writtenRow options record = .ok row ↔ record.id = options.scope.href ++ row.id ∧
        row = { id := row.id, shape := recordShape options.scope record, body := record } := by
  unfold writtenRow
  rw [bind_eq_ok]
  simp only [require_eq_ok, UrlPath.Scope.localPath_eq_some, pure_eq_ok_iff]
  constructor
  · rintro ⟨id, hid, rfl⟩
    exact ⟨hid, rfl⟩
  · rintro ⟨hid, hrow⟩
    exact ⟨row.id, hid, hrow⟩

end Versions

end Bdp.Evaluator
