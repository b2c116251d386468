import Bdp.Evaluator.Runs

/-!
# Creations

A creation is exact when its record is named by the path that was checked, under a key that is new,
and no other row changes but the one of the owning source. The identity passes through a spelling, a
local path and a URL; the path is checked and the URL is written, and the two agree unless the path
starts like an absolute URL.
-/

namespace Bdp.Evaluator

open Recovery (ResourceKind ResourceShape)
open Transaction (Reference)
open UrlPath (Scope hasScheme)

variable {config : GraphConfiguration} {graph after : Graph} {past : List Graph}
  {context : MemberContext} {mutation : ResourceMutation} {evaluation : ResourceEvaluation}

/-- The preflight of a carrier on a supplied identity: a canonical path, or the URL of one. -/
def admittedIdentity (scope : Scope) (spelling : String) : Bool :=
  if hasScheme spelling then (scope.resourcePath spelling).isSome
  else UrlPath.canonicalPath spelling

/-- The local path of a new identity, which is checked against the ledger and the aliases. -/
def CheckedPath (config : GraphConfiguration) (context : MemberContext)
    (mutation : ResourceMutation) (path : String) : Prop :=
  ∃ spelling uri, context.identitySpelling mutation = some spelling ∧
    canonical (context.options config) spelling = .ok uri ∧
    config.scope.resourcePath uri = some path

/-- The row under the key is the one of the Bead that owns the created Link, and keeps what is not
about owned Links. -/
def OwningRow (config : GraphConfiguration) (graph : Graph) (context : MemberContext)
    (record : ResourceRecord) (after : Graph) (key : String) : Prop :=
  ∃ link old bead row renewed, record = .link link ∧
    link.source.uri = config.scope.href ++ key ∧
    graph.resources[key]? = some old ∧ old.body = .bead bead ∧
    OwnsType (context.options config) (graph.view config context) bead link.type ∧
    after.resources[key]? = some row ∧ row.shape = old.shape ∧ row.body = .bead renewed ∧
    renewed.id = bead.id ∧ renewed.type = bead.type ∧ renewed.properties = bead.properties ∧
    renewed.metadata = bead.metadata

/-- A creation names its record by the checked path and writes it under that path, which is new. -/
structure CreatedExactly (config : GraphConfiguration) (graph : Graph) (context : MemberContext)
    (mutation : ResourceMutation) (evaluation : ResourceEvaluation) (path : String)
    (record : ResourceRecord) (row : StoredResource) : Prop where
  checked : CheckedPath config context mutation path
  outcome : ∃ source, evaluation.outcome = .created record source
  named : record.id = config.scope.href ++ path
  uncommitted : path ∉ graph.identities
  unaliased : ∀ name, aliasPath path = some name → name ∉ graph.aliases
  unused : path ∉ graph.resources
  written : row ∈ evaluation.writes ∧ row.id = path ∧ row.body = record
  kept : ∀ after, graph.apply config evaluation = .ok after →
    after.resources[path]? = some row ∧ ∀ key, key ≠ path →
      after.resources[key]? = graph.resources[key]? ∨
        OwningRow config graph context record after key

section Outcomes

variable {options : ResourceEvaluationOptions} {tx : ResourceTransaction} {prepared : Prepared}
  {versions : Versions}

theorem Evaluated.created (he : Evaluated options tx mutation evaluation prepared versions)
    (hcreating : mutation.creating = true) :
    ∃ record source, versions.after = some record ∧
      evaluation.outcome = .created record source := by
  have houtcome := he.outcome
  cases hafter : versions.after with
  | none =>
    cases mutation with
    | createBead input => simp only [mutationOutcome, hafter, reduceCtorEq] at houtcome
    | createLink input source target =>
      simp only [mutationOutcome, hafter, reduceCtorEq] at houtcome
    | update kind input => cases hcreating
    | delete kind name expected => cases hcreating
  | some record =>
    refine ⟨record, versions.sourceAfter.map fun source ↦ (source.id, source.revision), rfl, ?_⟩
    cases mutation with
    | createBead input =>
      simp only [mutationOutcome, hafter] at houtcome
      exact (Except.ok.inj houtcome).symm
    | createLink input source target =>
      simp only [mutationOutcome, hafter] at houtcome
      exact (Except.ok.inj houtcome).symm
    | update kind input => cases hcreating
    | delete kind name expected => cases hcreating

theorem isNoOp_of_creating (hcreating : mutation.creating = true) :
    isNoOp mutation prepared = false := by
  cases mutation with
  | createBead input => rfl
  | createLink input source target => rfl
  | update kind input => cases hcreating
  | delete kind name expected => cases hcreating

theorem deleting_of_creating (hcreating : mutation.creating = true) :
    mutation.deleting = false := by
  cases mutation with
  | createBead input => rfl
  | createLink input source target => rfl
  | update kind input => cases hcreating
  | delete kind name expected => cases hcreating

end Outcomes

theorem checkedPath_iff {subject : Subject} {path : String}
    (hcreated : CreatedSubject (context.options config) (graph.view config context)
      mutation.resourceKind mutation.suppliedIdentity subject) :
    CheckedPath config context mutation path ↔ path = subject.id := by
  obtain ⟨spelling, uri, hspelling, huri, hid⟩ := hcreated.named
  have hspelled := creationSpelling_eq_ok hspelling
  constructor
  · rintro ⟨other, uri', hother, huri', hpath⟩
    obtain rfl := Option.some.inj (hspelled.symm.trans hother)
    obtain rfl := Except.ok.inj (huri.symm.trans huri')
    exact Option.some.inj (hpath.symm.trans hid)
  · rintro rfl
    exact ⟨spelling, uri, hspelled, huri, hid⟩

theorem creation_exact (hsound : Sound config.scope past graph)
    (captured : CapturedFrom config (graph :: past) context mutation)
    (creating : mutation.creating = true)
    (hevaluated : evaluate (context.options config) (graph.view config context) mutation =
      .ok evaluation) (plain : PlainCreation config context mutation) :
    ∃ path record row,
      CreatedExactly config graph context mutation evaluation path record row := by
  have heffect := hsound.effect captured plain hevaluated
  have hreads := hsound.reads captured
  obtain ⟨prepared, versions, he⟩ := evaluate_spec hevaluated
  obtain ⟨-, hcreated⟩ | ⟨hfalse, -⟩ := mutationSubject_spec he.isPrepared.subject
  case inr => rw [creating] at hfalse; cases hfalse
  have hplain := (plainCreation_iff creating hcreated).mp plain
  have hunaliased := creation_unaliased captured he creating
  obtain ⟨huri, hnew, hunused⟩ := hcreated.fresh hsound.consistent hreads hplain
  obtain ⟨record, outcomeSource, hafter, houtcome⟩ := he.created creating
  obtain ⟨-, hid, -, hends, htype⟩ := after_spec he.isPrepared he.made hafter
  obtain ⟨hnoOp, -⟩ | ⟨-, subjectRow, sourceRow, hrows, hsubjectRow, hsourceRow⟩ :=
    writtenRows_eq_ok he.writes
  · rw [isNoOp_of_creating creating] at hnoOp
    cases hnoOp
  rw [hafter] at hsubjectRow
  obtain @⟨_, row, hrow⟩ := hsubjectRow
  obtain ⟨hrowId, hrowBody, -⟩ := subject_rowWrite hsound.consistent hreads he.isPrepared he.made
    (fun _ ↦ hplain) (fun _ ↦ hunaliased) hafter hrow
  have hmem : row ∈ evaluation.writes := by
    rw [hrows]
    exact List.mem_cons_self
  refine ⟨prepared.subject.id, record, row, (checkedPath_iff hcreated).mpr rfl,
    ⟨outcomeSource, houtcome⟩, hid.trans huri, hnew, hunaliased, hunused, ⟨hmem, hrowId, hrowBody⟩,
    fun after happly ↦ ?_⟩
  have happlied := applied_of_effect hsound.consistent heffect happly
  have hdeleted : evaluation.deleted = none := by
    rw [he.deleted, deleting_of_creating creating]
    rfl
  have hlookup (key : String) : after.resources[key]? =
      (graph.resources.insertRows (evaluation.writes.map fun row ↦ (row.id, row)))[key]? := by
    rw [happlied.lookup, hdeleted, if_neg (by simp)]
  have hnodup : ((evaluation.writes.map fun row ↦ (row.id, row)).map Prod.fst).Nodup := by
    rw [List.map_map]
    exact heffect.writes.nodup
  have hwritten {other : StoredResource} (hother : other ∈ evaluation.writes) :
      after.resources[other.id]? = some other := by
    rw [hlookup]
    exact Table.insertRows_of_mem hnodup
      (show (other.id, other) ∈ _ from List.mem_map.mpr ⟨other, hother, rfl⟩)
  refine ⟨hrowId ▸ hwritten hmem, fun key hkey ↦ ?_⟩
  by_cases hother : key ∈ evaluation.writes.map StoredResource.id
  case neg =>
    refine .inl ?_
    rw [hlookup, Table.insertRows_of_not_mem]
    simpa using hother
  case pos =>
    refine .inr ?_
    obtain ⟨other, hmember, rfl⟩ := List.mem_map.mp hother
    rw [hrows] at hmember
    obtain hfirst | hmember := List.mem_cons.mp hmember
    · exact absurd (hfirst ▸ hrowId) hkey
    generalize hsourceAfter : versions.sourceAfter = bead at hsourceRow
    cases hsourceRow with
    | none => cases hmember
    | some hbeadRow =>
      obtain rfl := List.mem_singleton.mp hmember
      obtain ⟨hbody, hwrite, source, descriptor, pair, old, howning, hpair, hpairUri, hsourceId,
        hold, -, holdBody, hkept⟩ :=
        source_rowWrite hsound.consistent hreads he.isPrepared he.made hsourceAfter hbeadRow
      have hmember : other ∈ evaluation.writes := by
        rw [hrows]
        exact List.mem_cons_of_mem _ List.mem_cons_self
      have hrenewed := hwrite.keyed
      rw [hbody] at hrenewed
      rw [hpair] at hends
      cases record with
      | bead record => cases hends
      | link link =>
        have hlinkSource : link.source = pair.1 := (List.cons.inj hends).1
        refine ⟨link, old, source, other, _, rfl, by rw [hlinkSource, hpairUri]; rfl, hold,
          holdBody, ?_, hwritten hmember, (hwrite.kept old hold).symm, hbody,
          hrenewed.trans hsourceId.symm, hkept⟩
        have howns := owningSource_ownsType he.isPrepared howning
        rwa [← htype] at howns

/-- In a run of plain creations a further creation is exact if and only if it is plain too. -/
theorem creation_exact_iff (run : GraphRun config (PlainCreation config) past graph)
    (captured : CapturedFrom config (graph :: past) context mutation)
    (creating : mutation.creating = true)
    (evaluated : evaluate (context.options config) (graph.view config context) mutation =
      .ok evaluation) :
    (∃ path record row,
        CreatedExactly config graph context mutation evaluation path record row) ↔
      PlainCreation config context mutation := by
  constructor
  · rintro ⟨path, record, row, hexact⟩
    obtain ⟨prepared, versions, he⟩ := evaluate_spec evaluated
    obtain ⟨-, hcreated⟩ | ⟨hfalse, -⟩ := mutationSubject_spec he.isPrepared.subject
    case inr => rw [creating] at hfalse; cases hfalse
    obtain rfl := (checkedPath_iff hcreated).mp hexact.checked
    obtain ⟨found, source, hafter, houtcome⟩ := he.created creating
    obtain ⟨source', houtcome'⟩ := hexact.outcome
    obtain ⟨rfl, -⟩ := MutationOutcome.created.inj (houtcome.symm.trans houtcome')
    have hid := (after_spec he.isPrepared he.made hafter).2.1
    have hresolved := hcreated.resolved
    rw [← hid, hexact.named] at hresolved
    exact (plainCreation_iff creating hcreated).mpr
      (UrlPath.Scope.resolve_eq_append_iff.mp hresolved)
  · exact creation_exact run.sound captured creating evaluated

variable (store : StoreKind)

section Sample

theorem https_chars : ['h', 't', 't', 'p', 's'].all UrlPath.isSchemeChar = true := rfl

theorem https_head : ['h', 't', 't', 'p', 's'].head?.any Char.isAlpha = true := rfl

/-- The Scope `https://h/`. -/
def sampleScope : Scope :=
  { scheme := ['h', 't', 't', 'p', 's'], scheme_chars := https_chars, scheme_head := https_head
    authority := ['h'], directories := [], foreign := fun _ _ ↦ none }

def noteType : TypeDescriptor :=
  { id := "note", conformsTo := [], describes := .bead none, propertiesSchema := false }

def citesType : TypeDescriptor :=
  { id := "cites", conformsTo := []
    describes := .link { conformsTo := [], external := .none } { conformsTo := [], external := .none }
    propertiesSchema := false }

def bookType : TypeDescriptor :=
  { id := "book", conformsTo := [], describes := .bead (some { maxima := [("cites", 8)], distinct := by decide })
    propertiesSchema := false }

def sampleContract (id : String) : Option InstalledResourceContract :=
  ([noteType, citesType, bookType].find? fun descriptor ↦ descriptor.id == id).map fun descriptor ↦
    { descriptor, validateProperties := none }

def sampleRevision (index : ℕ) : String := String.ofList (List.replicate (index + 1) 'r')

variable (index : ℕ)

theorem length_sampleRevision : (sampleRevision index).toList.length = index + 1 := by
  rw [sampleRevision, String.toList_ofList, List.length_replicate]

theorem sampleRevision_injective : Function.Injective sampleRevision := by
  intro first second h
  have hlength := congrArg (fun revision ↦ revision.toList.length) h
  simp only [length_sampleRevision] at hlength
  omega

theorem sampleRevision_nonempty : sampleRevision index ≠ "" := by
  intro h
  have hlength := length_sampleRevision index
  rw [h] at hlength
  simp at hlength

def sampleConfiguration (store : StoreKind) : GraphConfiguration :=
  { store, scope := sampleScope
    installedTypes := ((((∅ : Table String).insert "note" "").insert "cites" "").insert "book" "")
    contracts := fun id _ ↦ sampleContract id
    readable := fun _ ↦ true
    sizes := { diagnostic := fun _ ↦ 0, properties := fun _ ↦ 0, record := fun _ ↦ 0 }
    isExternalBead := fun _ ↦ false
    revision := sampleRevision
    revision_injective := sampleRevision_injective
    revision_nonempty := sampleRevision_nonempty }

def sampleContext : MemberContext :=
  { policy := { canRead := fun _ ↦ true, canCreate := fun _ ↦ true, canWrite := fun _ _ ↦ true }
    canWriteBead := fun _ ↦ true, maximumEndpointMultiplicity := [], observeCommitTime := none
    recordChangeContext := false, limits := .unlimited, captured := []
    allocateResourceId := fun _ ↦ .error "exhausted", allocationUnsafe := false }

def createNote (id : String) : ResourceMutation :=
  .createBead { type := "note", id := some id, properties := none, metadata := none
                revisionProvenance := none }

def sampleNote (id : String) (draw : ℕ) : BeadRecord :=
  { id := "https://h/" ++ id, type := "note", revision := sampleRevision draw, properties := []
    metadata := [], revisionProvenance := none, ownedLinks := none }

def noteRow (id : String) (draw : ℕ) : StoredResource :=
  { id, shape := .bead, body := .bead (sampleNote id draw) }

/-- What the creation of a note gives when it writes the row of another path. -/
def noteEvaluation (spelling id : String) (draw : ℕ) : ResourceEvaluation :=
  { outcome := .created (.bead (sampleNote id draw)) none
    resolutions := [{ inputPointer := .id, original := plainReference spelling
                      resolved := plainReference ("https://h/" ++ id) }]
    writes := [noteRow id draw]
    deleted := none }

/-- The graph with the note `a` alone. -/
def noteGraph : Graph := { Graph.empty.insertRow (noteRow "a" 0) with revisions := 2 }

theorem captured_nothing (graphs : List Graph) (store : StoreKind) (mutation : ResourceMutation) :
    CapturedFrom (sampleConfiguration store) graphs sampleContext mutation :=
  fun _ h ↦ nomatch h

theorem plain_sample {store : StoreKind} {id : String} (h : plainIdentity sampleScope id = true) :
    PlainCreation (sampleConfiguration store) sampleContext (createNote id) := by
  intro _ spelling hspelling
  rwa [← Option.some.inj hspelling]

theorem noteGraph_run :
    GraphRun (sampleConfiguration store) (PlainCreation (sampleConfiguration store))
      [Graph.empty] noteGraph := by
  refine .mutated sampleContext (createNote "a") (noteEvaluation "a" "a" 0) .empty
    (captured_nothing _ _ _) (plain_sample rfl) ?_
  cases store <;> exact ⟨rfl, rfl⟩

end Sample

theorem creation_of_b_exact :
    (∃ path record row, CreatedExactly (sampleConfiguration .transaction) noteGraph sampleContext
        (createNote "b") (noteEvaluation "b" "b" 2) path record row) ↔
      PlainCreation (sampleConfiguration .transaction) sampleContext (createNote "b") :=
  creation_exact_iff (noteGraph_run .transaction) (captured_nothing _ _ _) rfl rfl

/-- In both stores the admitted identity `https://h/https:a` is written over the note `a`. The path
that was checked is `https:a`, but the record and its row are those of `a`. -/
theorem creation_overwrites : admittedIdentity sampleScope "https://h/https:a" = true ∧
      evaluate (sampleContext.options (sampleConfiguration store))
          (noteGraph.view (sampleConfiguration store) sampleContext)
          (createNote "https://h/https:a") =
        .ok (noteEvaluation "https://h/https:a" "a" 2) ∧
      noteGraph.resources["a"]? = some (noteRow "a" 0) ∧
      noteGraph.apply (sampleConfiguration store) (noteEvaluation "https://h/https:a" "a" 2) =
        .ok { noteGraph.insertRow (noteRow "a" 2) with revisions := 4 } := by
  cases store <;> exact ⟨rfl, rfl, rfl, rfl⟩

theorem creation_of_scheme_not_exact :
    GraphRun (sampleConfiguration .transaction) (PlainCreation (sampleConfiguration .transaction))
        [Graph.empty] noteGraph ∧
      admittedIdentity sampleScope "https://h/https:a" = true ∧
      evaluate (sampleContext.options (sampleConfiguration .transaction))
          (noteGraph.view (sampleConfiguration .transaction) sampleContext)
          (createNote "https://h/https:a") =
        .ok (noteEvaluation "https://h/https:a" "a" 2) ∧
      ¬ ∃ path record row, CreatedExactly (sampleConfiguration .transaction) noteGraph sampleContext
        (createNote "https://h/https:a") (noteEvaluation "https://h/https:a" "a" 2) path record
        row := by
  refine ⟨noteGraph_run .transaction, (creation_overwrites .transaction).1,
    (creation_overwrites .transaction).2.1, ?_⟩
  rintro ⟨path, record, row, hexact⟩
  obtain ⟨source, houtcome⟩ := hexact.outcome
  have hrecord : record = .bead (sampleNote "a" 2) := (MutationOutcome.created.inj houtcome).1.symm
  have hkey : path = "a" := by
    have hnamed := hexact.named
    rw [hrecord] at hnamed
    have hhref : (sampleConfiguration .transaction).scope.href = "https://h/" := rfl
    rw [hhref] at hnamed
    exact ((String.append_right_inj _).mp hnamed).symm
  refine hexact.unused ?_
  rw [hkey]
  exact Table.mem_of_lookup (creation_overwrites .transaction).2.2.1

end Bdp.Evaluator
