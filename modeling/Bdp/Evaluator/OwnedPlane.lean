import Bdp.Evaluator.OwnedLinks

/-!
# The plane of owned Links

The invariant that ties inline Links to their rows, through every step of a run of plain creations:
each Bead of an owning Type lists exactly the live Links of the owned Types that lead from it, and
every row has a revision that has been drawn.
-/

namespace Bdp.Evaluator

open Recovery (ResourceKind ResourceShape)
open Retained (JsonObject)
open Transaction (Reference)
open UrlPath (Scope hasScheme)

def GraphConfiguration.descriptor (config : GraphConfiguration) (type : String) :
    Option TypeDescriptor :=
  (config.installedTypes[type]?.bind (config.contracts type)).map
    InstalledResourceContract.descriptor

def LeadsFrom (scope : Scope) (graph : Graph) (owner : String) (link : LinkRecord) : Prop :=
  ∃ id, Outgoing scope graph owner id link

/-- A Bead lists exactly its owned Links when its Type declares some, and nothing otherwise. -/
def ListsOwned (descriptor : TypeDescriptor) (leads : LinkRecord → Prop)
    (ownedLinks : Option OwnedLinks) : Prop :=
  match descriptor.ownsOutgoing with
  | none => ownedLinks = none
  | some declarations => ∃ entries, ownedLinks = some entries ∧
      OwnsExactly declarations leads entries

structure Graph.Owned (config : GraphConfiguration) (graph : Graph) : Prop where
  typed : ∀ (key : String) (row : StoredResource), graph.resources[key]? = some row →
    row.body.fields.type ≠ "" ∧ ∃ descriptor,
      config.descriptor row.body.fields.type = some descriptor ∧
        descriptor.describes.kind = row.body.kind
  plane : ∀ (key : String) (row : StoredResource) (bead : BeadRecord) (descriptor : TypeDescriptor),
    graph.resources[key]? = some row → row.body = .bead bead →
      config.descriptor bead.type = some descriptor →
        ListsOwned descriptor (LeadsFrom config.scope graph key) bead.ownedLinks
  drawn : ∀ (key : String) (row : StoredResource), graph.resources[key]? = some row →
    ∃ index < graph.revisions, row.body.fields.revision = config.revision index

variable {declarations : OwnedOutgoingDeclarations} {leads : LinkRecord → Prop}
variable {entries : OwnedLinks}

theorem OwnsExactly.declared (h : OwnsExactly declarations leads entries)
    {type : String} {links : List LinkRecord} (hmem : (type, links) ∈ entries) :
    declaresOwned declarations type = true := by
  obtain hname | ⟨hdeclared, -⟩ := (h.types type).mp (List.mem_map.mpr ⟨_, hmem, rfl⟩)
  · exact declaresOwned_of_name hname
  · exact hdeclared

variable {leads' : LinkRecord → Prop}

theorem OwnsExactly.congr (h : OwnsExactly declarations leads entries)
    (hsame : ∀ link, declaresOwned declarations link.type = true → (leads link ↔ leads' link)) :
    OwnsExactly declarations leads' entries where
  nodup := h.nodup
  types type := by
    rw [h.types type]
    refine or_congr_right (and_congr_right fun hdeclared ↦ exists_congr fun link ↦ ?_)
    refine and_congr_left fun htype ↦ hsame link ?_
    rwa [htype]
  groups type links hmem := by
    obtain ⟨hsorted, hlinks⟩ := h.groups type links hmem
    refine ⟨hsorted, fun link ↦ ?_⟩
    rw [hlinks]
    refine and_congr_left fun htype ↦ hsame link ?_
    rw [htype]
    exact h.declared hmem
  maxima := h.maxima
  total := h.total

variable {descriptor : TypeDescriptor}

theorem ListsOwned.congr
    {ownedLinks : Option OwnedLinks} (h : ListsOwned descriptor leads ownedLinks)
    (hsame : ∀ declarations, descriptor.ownsOutgoing = some declarations →
      ∀ link, declaresOwned declarations link.type = true → (leads link ↔ leads' link)) :
    ListsOwned descriptor leads' ownedLinks := by
  unfold ListsOwned at h ⊢
  cases howns : descriptor.ownsOutgoing with
  | none => rwa [howns] at h
  | some declarations =>
    rw [howns] at h
    obtain ⟨entries, hentries, hexact⟩ := h
    exact ⟨entries, hentries, hexact.congr (hsame declarations howns)⟩

variable {key : String}

section Computed

variable {options : ResourceEvaluationOptions} {tx : ResourceTransaction} {graph : Graph}

/-- The list that is computed for an owner holds the Links that lead from it, but for a removed or
replaced one, and the new record of the replaced one. -/
theorem ownedLinksOf_spec (h : Graph.Consistent options.scope graph) (hr : Reads graph tx)
    {replacement : Option LinkRecipe}
    {removed replaced : Option String} {owned : Option (List (String × List PreparedLink))}
    (native : JsonObject) (hplain : hasScheme key = false)
    (hreplaced : replacement.map (fun recipe ↦ recipe.id) =
      replaced.map fun id ↦ options.scope.href ++ id)
    (howned : ownedLinksOf options tx (options.scope.href ++ key) descriptor replacement removed =
      .ok owned) :
    ListsOwned descriptor
      (fun link ↦ (∃ id, Outgoing options.scope graph key id link ∧ some id ≠ removed ∧
          some id ≠ replaced) ∨
        ∃ recipe, replacement = some recipe ∧ materializeLink native recipe = link)
      (owned.map fun entries ↦
        entries.map fun entry ↦ (entry.1, entry.2.map (materializePrepared native))) := by
  unfold ownedLinksOf at howned
  unfold ListsOwned
  cases howns : descriptor.ownsOutgoing with
  | none =>
    simp only [howns] at howned
    rw [← Except.ok.inj howned]
    rfl
  | some declarations =>
    simp only [howns] at howned
    cases hentries : ownedLinks options tx (options.scope.href ++ key) descriptor declarations
        replacement removed with
    | error stop => rw [hentries] at howned; cases howned
    | ok entries =>
      rw [hentries] at howned
      obtain rfl := Except.ok.inj howned
      refine ⟨_, rfl, ?_⟩
      have hcomputed := hentries
      unfold ownedLinks at hcomputed
      obtain ⟨live, hlive, -⟩ := Except.bind_eq_ok.mp hcomputed
      obtain ⟨hnodup, hmem⟩ := liveLinks_spec h hr hplain hreplaced hlive
      refine (ownedLinks_spec (materializePrepared native) ?_ ?_ hlive hnodup hentries).congr ?_
      · intro link
        cases link <;> rfl
      · intro link
        cases link <;> rfl
      · intro link _
        constructor
        · rintro ⟨prepared, hprepared, rfl⟩
          obtain ⟨id, found, rfl, hout, hne⟩ | ⟨recipe, hrecipe, rfl⟩ := (hmem prepared).mp hprepared
          · exact .inl ⟨id, hout, hne⟩
          · exact .inr ⟨recipe, hrecipe, rfl⟩
        · rintro (⟨id, hout, hne⟩ | ⟨recipe, hrecipe, rfl⟩)
          · exact ⟨.existing link, (hmem _).mpr (.inl ⟨id, link, rfl, hout, hne⟩), rfl⟩
          · exact ⟨.replacement recipe, (hmem _).mpr (.inr ⟨recipe, hrecipe, rfl⟩), rfl⟩

end Computed

section Rewriting

variable {options : ResourceEvaluationOptions} {tx : ResourceTransaction} {graph after : Graph}
  {mutation : ResourceMutation} {evaluation : ResourceEvaluation} {prepared : Prepared}
  {versions : Versions}

/-- Where the new records of a mutation stand, and that all other rows stay. -/
structure Rewritten (scope : Scope) (graph after : Graph) (prepared : Prepared)
    (versions : Versions) : Prop where
  subject : ∀ record, versions.after = some record →
    ∃ row, after.resources[prepared.subject.id]? = some row ∧ row.body = record
  removed : versions.after = none → after.resources[prepared.subject.id]? = none
  source : ∀ bead, versions.sourceAfter = some bead → ∃ key row source descriptor pair old,
    owningSource prepared = some (source, descriptor) ∧ prepared.endpoints = some pair ∧
    pair.1.uri = scope.href ++ key ∧ source.id = scope.href ++ key ∧ prepared.subject.id ≠ key ∧
    graph.resources[key]? = some old ∧ old.body = .bead source ∧
    after.resources[key]? = some row ∧ row.body = .bead bead
  kept : ∀ key, key ≠ prepared.subject.id →
    (∀ source descriptor, owningSource prepared = some (source, descriptor) →
      source.id ≠ scope.href ++ key) → after.resources[key]? = graph.resources[key]?

/-- A new version of the subject is made unless it is deleted, and one of the source when it owns
the subject. -/
theorem versions_isSome {noOp : Bool}
    (hmade : makeVersions options tx mutation prepared noOp = .ok versions) :
    versions.after.isSome = !mutation.deleting ∧
      versions.sourceAfter.isSome = (owningSource prepared).isSome := by
  obtain ⟨subject, source, native, hversions⟩ := makeVersions_spec hmade
  rw [hversions.after, hversions.sourceAfter, Option.isSome_map, Option.isSome_map]
  constructor
  · obtain ⟨hdeleting, rfl⟩ | ⟨hdeleting, revision, -, ⟨pair, -, rfl⟩ | ⟨-, owned, -, rfl⟩⟩ :=
      subjectRecipe_eq_ok hversions.subjectMade <;> rw [hdeleting] <;> rfl
  · obtain ⟨hnone, rfl⟩ | ⟨bead, descriptor, revision, owned, howning, -, -, rfl⟩ :=
      sourceRecipe_eq_ok hversions.sourceMade
    · rw [hnone]
      rfl
    · rw [howning]
      rfl

theorem rewritten (h : Graph.Consistent options.scope graph) (hr : Reads graph tx)
    (he : Evaluated options tx mutation evaluation prepared versions)
    (hplain : mutation.creating = true → hasScheme prepared.subject.id = false)
    (hunaliased : mutation.creating = true →
      ∀ path, aliasPath prepared.subject.id = some path → path ∉ graph.aliases)
    (hnoOp : isNoOp mutation prepared = false)
    (heffect : Effect options.scope graph evaluation)
    (happlied : Applied options.scope graph evaluation after) :
    Rewritten options.scope graph after prepared versions := by
  have hprepared := he.isPrepared
  obtain ⟨hnoOp', -⟩ | ⟨-, subjectRow, sourceRow, hrows, hsubjectRow, hsourceRow⟩ :=
    writtenRows_eq_ok he.writes
  · rw [hnoOp] at hnoOp'
    cases hnoOp'
  obtain ⟨hafterSome, hsourceSome⟩ := versions_isSome he.made
  have hnodup : ((evaluation.writes.map fun row ↦ (row.id, row)).map Prod.fst).Nodup := by
    rw [List.map_map]
    exact heffect.writes.nodup
  have hwritten {row : StoredResource} (hrow : row ∈ evaluation.writes) :
      after.resources[row.id]? = some row := by
    rw [happlied.lookup, if_neg]
    · exact Table.insertRows_of_mem hnodup
        (show (row.id, row) ∈ _ from List.mem_map.mpr ⟨row, hrow, rfl⟩)
    · intro hdeleted
      obtain ⟨_, -, -, hnot⟩ := heffect.deleted row.id hdeleted
      exact hnot (List.mem_map_of_mem hrow)
  have hsubjectWrite {record : ResourceRecord} (hafter : versions.after = some record) :
      ∃ row ∈ evaluation.writes, row.id = prepared.subject.id ∧ row.body = record := by
    rw [hafter] at hsubjectRow
    obtain @⟨_, row, hrow⟩ := hsubjectRow
    obtain ⟨hid, hbody, -⟩ := subject_rowWrite h hr hprepared he.made hplain hunaliased hafter hrow
    refine ⟨row, ?_, hid, hbody⟩
    rw [hrows]
    exact List.mem_append_left _ List.mem_cons_self
  have hsourceWrite {bead : BeadRecord} (hafter : versions.sourceAfter = some bead) :
      ∃ row ∈ evaluation.writes, row.body = .bead bead ∧
        ∃ source descriptor pair old, owningSource prepared = some (source, descriptor) ∧
        prepared.endpoints = some pair ∧ pair.1.uri = options.scope.href ++ row.id ∧
        source.id = options.scope.href ++ row.id ∧ prepared.subject.id ≠ row.id ∧
        graph.resources[row.id]? = some old ∧ old.body = .bead source := by
    have hends := endpoints_of_sourceAfter he.made hprepared hafter
    rw [hafter] at hsourceRow
    obtain @⟨_, row, hrow⟩ := hsourceRow
    obtain ⟨hbody, -, source, descriptor, pair, old, howning, hpair, huri, hid, hold, hbead,
      holdBody, -⟩ := source_rowWrite h hr hprepared he.made hafter hrow
    refine ⟨row, ?_, hbody, source, descriptor, pair, old, howning, hpair, huri, hid,
      subject_ne_source h hr hprepared hplain hends hold hbead, hold, holdBody⟩
    rw [hrows]
    exact List.mem_append_right _ List.mem_cons_self
  constructor
  case subject =>
    intro record hafter
    obtain ⟨row, hrow, hid, hbody⟩ := hsubjectWrite hafter
    exact ⟨row, hid ▸ hwritten hrow, hbody⟩
  case removed =>
    intro hnone
    rw [hnone] at hafterSome
    have hdeleting : mutation.deleting = true := by simpa using hafterSome.symm
    rw [happlied.lookup, if_pos]
    rw [he.deleted, if_pos hdeleting]
  case source =>
    intro bead hafter
    obtain ⟨row, hrow, hbody, source, descriptor, pair, old, howning, hpair, huri, hid, hne, hold,
      holdBody⟩ := hsourceWrite hafter
    exact ⟨row.id, row, source, descriptor, pair, old, howning, hpair, huri, hid, hne, hold,
      holdBody, hwritten hrow, hbody⟩
  case kept =>
    intro key hkey hsource
    rw [happlied.lookup, if_neg, Table.insertRows_of_not_mem]
    · intro hmem
      rw [List.map_map] at hmem
      obtain ⟨row, hrow, hrowKey⟩ := List.mem_map.mp hmem
      have hrowId : row.id = key := hrowKey
      rw [hrows] at hrow
      obtain hrow | hrow := List.mem_append.mp hrow
      · generalize hafter : versions.after = record at hsubjectRow
        cases hsubjectRow with
        | none => cases hrow
        | some hwrittenRow =>
          obtain rfl := List.mem_singleton.mp hrow
          obtain ⟨hid, -⟩ := subject_rowWrite h hr hprepared he.made hplain hunaliased hafter
            hwrittenRow
          exact hkey (hrowId.symm.trans hid)
      · generalize hafter : versions.sourceAfter = bead at hsourceRow
        cases hsourceRow with
        | none => cases hrow
        | some hwrittenRow =>
          obtain rfl := List.mem_singleton.mp hrow
          obtain ⟨-, -, source, descriptor, pair, old, howning, -, -, hid, -⟩ :=
            source_rowWrite h hr hprepared he.made hafter hwrittenRow
          exact hsource source descriptor howning (hrowId ▸ hid)
    · rw [he.deleted]
      split
      · exact fun heq ↦ hkey (Option.some.inj heq).symm
      · nofun

end Rewriting

section Steps

variable {config : GraphConfiguration} {context : MemberContext} {graph after : Graph}
  {mutation : ResourceMutation} {evaluation : ResourceEvaluation} {prepared : Prepared}
  {versions : Versions}

/-- A mutation of a member on a consistent graph, with what it leaves. -/
structure MemberStep (config : GraphConfiguration) (context : MemberContext) (graph after : Graph)
    (mutation : ResourceMutation) (evaluation : ResourceEvaluation) (prepared : Prepared)
    (versions : Versions) : Prop where
  consistent : Graph.Consistent config.scope graph
  reads : Reads graph (graph.view config context)
  evaluated : Evaluated (context.options config) (graph.view config context) mutation evaluation
    prepared versions
  rewritten : Rewritten config.scope graph after prepared versions
  changed : isNoOp mutation prepared = false
  plain : mutation.creating = true → hasScheme prepared.subject.id = false

theorem MemberStep.before (step : MemberStep config context graph after mutation evaluation prepared
      versions) :
    prepared.subject.uri = config.scope.href ++ prepared.subject.id ∧
      hasScheme prepared.subject.id = false ∧
      (prepared.subject.id ∉ graph.resources ∧ mutation.creating = true ∨
        mutation.creating = false ∧ ∃ row, graph.resources[prepared.subject.id]? = some row ∧
          prepared.subject.before = some row.body ∧ row.body.kind = mutation.resourceKind) := by
  obtain ⟨hcreating, hcreated⟩ | ⟨hcreating, name, record, hfound⟩ :=
    mutationSubject_spec step.evaluated.isPrepared.subject
  · obtain ⟨huri, -, hnew⟩ := hcreated.fresh step.consistent step.reads (step.plain hcreating)
    exact ⟨huri, step.plain hcreating, .inl ⟨hnew, hcreating⟩⟩
  · obtain ⟨huri, row, hrow, -, rfl, hkind⟩ := hfound.row step.consistent step.reads
    exact ⟨huri, step.consistent.plain _
      (Table.mem_of_lookup (step.consistent.committed _ row hrow)),
      .inr ⟨hcreating, row, hrow, hfound.before, hkind⟩⟩

variable {link : LinkRecord} {owner : String}

section

variable (step : MemberStep config context graph after mutation evaluation prepared versions)
include step

theorem MemberStep.outgoing_other {id : String} (hid : id ≠ prepared.subject.id) :
    Outgoing config.scope after owner id link ↔ Outgoing config.scope graph owner id link := by
  by_cases hsource : ∃ source descriptor, owningSource prepared = some (source, descriptor) ∧
      source.id = config.scope.href ++ id
  · -- the row of the owning source is a Bead before and after
    obtain ⟨source, descriptor, howning, hsourceId⟩ := hsource
    have hsome := (versions_isSome step.evaluated.made).2
    rw [howning] at hsome
    obtain ⟨bead, hbead⟩ := Option.isSome_iff_exists.mp hsome
    obtain ⟨key, row, source', descriptor', pair, old, howning', -, -, hkey, -, hold, holdBody, hrow,
      hbody⟩ := step.rewritten.source bead hbead
    obtain ⟨rfl, -⟩ := Prod.mk.inj (Option.some.inj (howning.symm.trans howning'))
    obtain rfl : id = key := (String.append_right_inj _).mp (hsourceId.symm.trans hkey)
    constructor
    · rintro ⟨found, hfound, hlink, -⟩
      obtain rfl := Option.some.inj (hrow.symm.trans hfound)
      rw [hbody] at hlink
      cases hlink
    · rintro ⟨found, hfound, hlink, -⟩
      obtain rfl := Option.some.inj (hold.symm.trans hfound)
      rw [holdBody] at hlink
      cases hlink
  · have hkept := step.rewritten.kept id hid fun source descriptor howning hsourceId ↦
      hsource ⟨source, descriptor, howning, hsourceId⟩
    unfold Outgoing
    rw [hkept]

theorem MemberStep.outgoing_subject : Outgoing config.scope after owner prepared.subject.id link ↔
      versions.after = some (.link link) ∧ config.scope.localPath link.source.uri = some owner := by
  constructor
  · rintro ⟨row, hrow, hbody, hpath⟩
    refine ⟨?_, hpath⟩
    cases hafter : versions.after with
    | none =>
      rw [step.rewritten.removed hafter] at hrow
      cases hrow
    | some record =>
      obtain ⟨found, hfound, hrecord⟩ := step.rewritten.subject record hafter
      obtain rfl := Option.some.inj (hrow.symm.trans hfound)
      rw [← hrecord, hbody]
  · rintro ⟨hafter, hpath⟩
    obtain ⟨row, hrow, hbody⟩ := step.rewritten.subject _ hafter
    exact ⟨row, hrow, hbody, hpath⟩

theorem MemberStep.leadsFrom_iff : LeadsFrom config.scope after owner link ↔
      (∃ id, Outgoing config.scope graph owner id link ∧ id ≠ prepared.subject.id) ∨
        versions.after = some (.link link) ∧
          config.scope.localPath link.source.uri = some owner := by
  constructor
  · rintro ⟨id, hout⟩
    by_cases hid : id = prepared.subject.id
    · exact .inr (step.outgoing_subject.mp (hid ▸ hout))
    · exact .inl ⟨id, (step.outgoing_other hid).mp hout, hid⟩
  · rintro (⟨id, hout, hid⟩ | hout)
    · exact ⟨id, (step.outgoing_other hid).mpr hout⟩
    · exact ⟨prepared.subject.id, step.outgoing_subject.mpr hout⟩

theorem MemberStep.not_outgoing_of_bead (hbead : mutation.resourceKind = .bead)
    : ¬ Outgoing config.scope graph owner prepared.subject.id link := by
  rintro ⟨row, hrow, hbody, -⟩
  obtain ⟨-, -, ⟨hnew, -⟩ | ⟨-, found, hfound, -, hkind⟩⟩ := step.before
  · exact hnew (Table.mem_of_lookup hrow)
  · obtain rfl := Option.some.inj (hrow.symm.trans hfound)
    rw [hbody, hbead] at hkind
    cases hkind

theorem MemberStep.owning (howned : graph.Owned config) {pair : Endpoints}
    (hpair : prepared.endpoints = some pair) {row : StoredResource}
    {bead : BeadRecord} (hkey : config.scope.localPath pair.1.uri = some key)
    (hrow : graph.resources[key]? = some row) (hbody : row.body = .bead bead)
    (hdescriptor : config.descriptor bead.type = some descriptor)
    (howns : descriptor.ownsOutgoing = some declarations)
    (hdeclares : declaresOwned declarations prepared.type = true) :
    ∃ source, owningSource prepared = some (source, descriptor) ∧
      source.id = config.scope.href ++ key := by
  have hprepared := step.evaluated.isPrepared
  have hsource := hprepared.source
  rw [hpair] at hsource
  have hsome : ∃ source, prepared.source = some source := by
    simp only [sourceBead] at hsource
    have hscope : (context.options config).scope.localPath pair.1.uri = some key := hkey
    rw [hscope] at hsource
    obtain ⟨uri, -, hsource⟩ := Except.bind_eq_ok.mp hsource
    obtain ⟨record, -, hsource⟩ := Except.bind_eq_ok.mp hsource
    obtain ⟨found, -, hsource⟩ := Except.bind_eq_ok.mp hsource
    exact ⟨found, Except.pure_eq_ok_iff.mp hsource⟩
  obtain ⟨source, hsourceEq⟩ := hsome
  rw [hsourceEq] at hsource
  obtain ⟨id, uri, hid, huri, hload⟩ := sourceBead_spec hsource
  obtain rfl := Option.some.inj (hkey.symm.trans hid)
  have hplain := step.consistent.plain _
    (Table.mem_of_lookup (step.consistent.committed key row hrow))
  have huri' : uri = config.scope.href ++ key :=
    (Option.some.inj ((UrlPath.Scope.resolve_plain hplain).symm.trans huri)).symm
  obtain ⟨other, found, hother, hfound, -, hfoundBody, -⟩ := row_of_loadVisible step.reads hload
  obtain rfl : key = other := (String.append_right_inj _).mp (huri'.symm.trans hother)
  obtain rfl := Option.some.inj (hrow.symm.trans hfound)
  obtain rfl := ResourceRecord.bead.inj (hbody.symm.trans hfoundBody)
  have hsourceId := (step.consistent.keyed key row hrow).2
  rw [hbody] at hsourceId
  have hsourceType := hprepared.sourceType
  rw [hsourceEq, sourceType] at hsourceType
  cases hcontracts : contracts (context.options config) (graph.view config context) bead.type with
  | error stop => rw [hcontracts] at hsourceType; cases hsourceType
  | ok effective =>
    rw [hcontracts] at hsourceType
    have htyped := (howned.typed key row hrow).1
    rw [hbody] at htyped
    have hdeclared := ((declaredType_spec hcontracts).2 htyped).1
    have hsourceDescriptor : prepared.sourceDescriptor = some descriptor :=
      (Except.ok.inj hsourceType).symm.trans (hdeclared.trans hdescriptor)
    refine ⟨bead, ?_, hsourceId⟩
    rw [owningSource, hsourceEq, hsourceDescriptor]
    simp [howns, hdeclares]

end

end Steps

end Bdp.Evaluator
