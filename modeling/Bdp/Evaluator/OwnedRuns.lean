import Bdp.Evaluator.OwnedPlane

/-!
# Owned Links through runs

The plane of owned Links through one step and through a run. A step that changes an owned Link draws
a new revision for the Bead that owns it.
-/

namespace Bdp.Evaluator

open Recovery (ResourceKind ResourceShape)
open Transaction (Reference)
open UrlPath (Scope hasScheme)

variable {config : GraphConfiguration} {context : MemberContext} {graph after : Graph}
  {mutation : ResourceMutation} {evaluation : ResourceEvaluation} {prepared : Prepared}
  {versions : Versions}

variable {descriptor : TypeDescriptor} {bead : BeadRecord} {key : String}

section Subjects

section

variable (step : MemberStep config context graph after mutation evaluation prepared versions)
include step

theorem MemberStep.declared :
    prepared.type ≠ "" ∧ config.descriptor prepared.type = some prepared.declared := by
  have hprepared := step.evaluated.isPrepared
  have hspec := declaredType_spec hprepared.effective
  have hne := hspec.1 _ hprepared.declared
  exact ⟨hne, (hspec.2 hne).1.symm.trans hprepared.declared⟩

variable {row : StoredResource}

/-- A row of the next graph is the new record of the subject, the one of its owning source, or a
row that was there. -/
theorem MemberStep.row_cases (hrow : after.resources[key]? = some row) :
    key = prepared.subject.id ∧ versions.after = some row.body ∨
      (∃ source descriptor pair old bead, owningSource prepared = some (source, descriptor) ∧
        prepared.endpoints = some pair ∧ pair.1.uri = config.scope.href ++ key ∧
        source.id = config.scope.href ++ key ∧ graph.resources[key]? = some old ∧
        old.body = .bead source ∧ versions.sourceAfter = some bead ∧ row.body = .bead bead) ∨
      key ≠ prepared.subject.id ∧ graph.resources[key]? = some row ∧
        ∀ source descriptor, owningSource prepared = some (source, descriptor) →
          source.id ≠ config.scope.href ++ key := by
  by_cases hkey : key = prepared.subject.id
  · subst hkey
    cases hafter : versions.after with
    | none =>
      rw [step.rewritten.removed hafter] at hrow
      cases hrow
    | some record =>
      obtain ⟨found, hfound, rfl⟩ := step.rewritten.subject record hafter
      obtain rfl := Option.some.inj (hrow.symm.trans hfound)
      exact .inl ⟨rfl, rfl⟩
  by_cases hsource : ∃ source descriptor, owningSource prepared = some (source, descriptor) ∧
      source.id = config.scope.href ++ key
  · obtain ⟨source, descriptor, howning, hid⟩ := hsource
    have hsome := (versions_isSome step.evaluated.made).2
    rw [howning] at hsome
    obtain ⟨bead, hbead⟩ := Option.isSome_iff_exists.mp hsome
    obtain ⟨other, found, source', descriptor', pair, old, howning', hpair, huri, hid', -, hold,
      holdBody, hfound, hbody⟩ := step.rewritten.source bead hbead
    obtain ⟨rfl, rfl⟩ := Prod.mk.inj (Option.some.inj (howning.symm.trans howning'))
    obtain rfl : key = other := (String.append_right_inj _).mp (hid.symm.trans hid')
    obtain rfl := Option.some.inj (hrow.symm.trans hfound)
    exact .inr (.inl ⟨source, descriptor, pair, old, bead, howning, hpair, huri, hid, hold, holdBody,
      hbead, hbody⟩)
  · have hother : ∀ source descriptor, owningSource prepared = some (source, descriptor) →
        source.id ≠ config.scope.href ++ key :=
      fun source descriptor howning hid ↦ hsource ⟨source, descriptor, howning, hid⟩
    rw [step.rewritten.kept key hkey hother] at hrow
    exact .inr (.inr ⟨hkey, hrow, hother⟩)

theorem MemberStep.owner_of_subject (howned : graph.Owned config)
    {declarations : OwnedOutgoingDeclarations}
    (hrow : graph.resources[key]? = some row) (hbody : row.body = .bead bead)
    (hdescriptor : config.descriptor bead.type = some descriptor)
    (howns : descriptor.ownsOutgoing = some declarations) {link : LinkRecord}
    (hdeclares : declaresOwned declarations link.type = true)
    (hlink : Outgoing config.scope graph key prepared.subject.id link ∨
      Outgoing config.scope after key prepared.subject.id link) :
    ∃ source, owningSource prepared = some (source, descriptor) ∧
      source.id = config.scope.href ++ key := by
  have hprepared := step.evaluated.isPrepared
  have hpair : ∃ pair, prepared.endpoints = some pair ∧
      config.scope.localPath pair.1.uri = some key ∧ prepared.type = link.type := by
    obtain ⟨found, hfound, hfoundBody, hpath⟩ | hout := hlink
    · -- an update or deletion keeps the source and the Type of the Link
      obtain ⟨-, -, ⟨hnew, -⟩ | ⟨hcreating, found', hfound', hbefore, hkind⟩⟩ := step.before
      · exact absurd (Table.mem_of_lookup hfound) hnew
      obtain rfl := Option.some.inj (hfound.symm.trans hfound')
      have huris := pairEnds_of_found step.consistent hprepared hcreating hfound hbefore hkind
      have htype := hprepared.type
      rw [hbefore] at htype
      rw [hfoundBody] at huris htype
      cases hends : prepared.endpoints with
      | none => rw [hends] at huris; cases huris
      | some pair =>
        rw [hends] at huris
        have hsource : pair.1.uri = link.source.uri := (List.cons.inj huris).1
        refine ⟨pair, rfl, by rw [hsource]; exact hpath, ?_⟩
        cases mutation with
        | createBead input => cases hcreating
        | createLink input source target => cases hcreating
        | update kind input => exact (Option.some.inj htype).symm
        | delete kind name expected => exact (Option.some.inj htype).symm
    · obtain ⟨hafter, hpath⟩ := step.outgoing_subject.mp hout
      obtain ⟨-, -, -, hends, htype⟩ := after_spec hprepared step.evaluated.made hafter
      cases hpair : prepared.endpoints with
      | none => rw [hpair] at hends; cases hends
      | some pair =>
        rw [hpair] at hends
        have hsource : link.source = pair.1 := (List.cons.inj hends).1
        exact ⟨pair, rfl, hsource ▸ hpath, htype.symm⟩
  obtain ⟨pair, hends, hpath, htype⟩ := hpair
  exact step.owning howned hends hpath hrow hbody hdescriptor howns (htype ▸ hdeclares)

end

end Subjects

variable {source : BeadRecord}

section Revisions

theorem revision_of_allocate {draw : ℕ} {revision : String}
    (h : allocateRevision (graph.view config context) draw = .ok revision) :
    revision = config.revision (graph.revisions + draw) := by
  unfold allocateRevision at h
  split at h
  · cases h
  next found hfound =>
    rw [check_bind_eq_ok, Except.pure_eq_ok_iff] at h
    unfold Graph.view at hfound
    split at hfound
    · cases hfound
    · exact h.2.trans (RevisionAllocation.text.inj hfound).symm

section

variable (step : MemberStep config context graph after mutation evaluation prepared versions)
include step

theorem MemberStep.subject_revision {record : ResourceRecord} (hafter : versions.after = some record) :
    record.fields.revision = config.revision graph.revisions := by
  obtain ⟨subject, source, native, hversions⟩ := makeVersions_spec step.evaluated.made
  rw [hversions.after] at hafter
  obtain ⟨recipe, rfl, rfl⟩ := Option.map_eq_some_iff.mp hafter
  obtain ⟨-, hnone⟩ | ⟨-, revision, hrevision, hrecipe⟩ := subjectRecipe_eq_ok hversions.subjectMade
  · cases hnone
  rw [step.changed] at hrevision
  have hdrawn : revision = config.revision graph.revisions := revision_of_allocate hrevision
  obtain ⟨pair, -, hrecipe⟩ | ⟨-, owned, -, hrecipe⟩ := hrecipe
  · obtain rfl := Option.some.inj hrecipe
    exact hdrawn
  · obtain rfl := Option.some.inj hrecipe
    exact hdrawn

section

variable (howning : owningSource prepared = some (source, descriptor))
include howning

theorem MemberStep.source_record (hafter : versions.sourceAfter = some bead) :
    bead.type = source.type ∧
      ∃ draw < 2, bead.revision = config.revision (graph.revisions + draw) := by
  obtain ⟨subject, recipe, native, hversions⟩ := makeVersions_spec step.evaluated.made
  rw [hversions.sourceAfter] at hafter
  obtain ⟨recipe, rfl, rfl⟩ := Option.map_eq_some_iff.mp hafter
  obtain ⟨-, hnone⟩ | ⟨found, descriptor', revision, owned, howning', hrevision, -, hrecipe⟩ :=
    sourceRecipe_eq_ok hversions.sourceMade
  · cases hnone
  obtain ⟨rfl, -⟩ := Prod.mk.inj (Option.some.inj (howning.symm.trans howning'))
  obtain rfl := Option.some.inj hrecipe
  rw [sourceRevision, step.changed] at hrevision
  refine ⟨rfl, if mutation.deleting then 0 else 1, ?_, revision_of_allocate hrevision⟩
  split <;> omega

theorem MemberStep.source_descriptor : config.descriptor source.type = some descriptor := by
  obtain ⟨effective, found, declarations, heffective, hdeclared, -⟩ :=
    owningSource_ownsType step.evaluated.isPrepared howning
  have hsourceType := step.evaluated.isPrepared.sourceType
  have hspec := declaredType_spec heffective
  unfold owningSource at howning
  split at howning
  next bead installed hsource hdescriptor =>
    split at howning
    next howns =>
      obtain ⟨rfl, rfl⟩ := Prod.mk.inj (Option.some.inj howning)
      rw [hsource, hdescriptor, sourceType, heffective] at hsourceType
      have hfound : declaredType bead.type effective = some installed := Except.ok.inj hsourceType
      exact (hspec.2 (hspec.1 _ hfound)).1.symm.trans hfound
    · cases howning
  next => cases howning

end

end

end Revisions

section Steps

section

variable (step : MemberStep config context graph after mutation evaluation prepared versions)
include step

theorem MemberStep.subject_lists (hafter : versions.after = some (.bead bead)) :
    ListsOwned prepared.declared (LeadsFrom config.scope after prepared.subject.id)
      bead.ownedLinks := by
  have hbead : mutation.resourceKind = .bead :=
    (after_spec step.evaluated.isPrepared step.evaluated.made hafter).2.2.1.symm
  obtain ⟨subject, source, native, hversions⟩ := makeVersions_spec step.evaluated.made
  have hmade := hversions.after
  rw [hafter] at hmade
  obtain ⟨recipe, rfl, hrecord⟩ := Option.map_eq_some_iff.mp hmade.symm
  obtain ⟨-, hnone⟩ | ⟨-, revision, -, ⟨pair, -, hrecipe⟩ | ⟨-, owned, howned, hrecipe⟩⟩ :=
    subjectRecipe_eq_ok hversions.subjectMade
  · cases hnone
  · rw [Option.some.inj hrecipe] at hrecord
    cases hrecord
  rw [Option.some.inj hrecipe] at hrecord
  obtain rfl := ResourceRecord.bead.inj hrecord
  obtain ⟨huri, hplain, -⟩ := step.before
  change ownedLinksOf (context.options config) (graph.view config context) prepared.subject.uri
    prepared.declared none none = .ok owned at howned
  rw [huri] at howned
  have hlists := ownedLinksOf_spec step.consistent step.reads native hplain
    (show _ = Option.map _ (none : Option String) from rfl) howned
  refine hlists.congr fun _ _ link _ ↦ ?_
  rw [step.leadsFrom_iff, hafter]
  constructor
  · rintro (⟨id, hout, -, -⟩ | ⟨recipe, hnone, -⟩)
    · refine .inl ⟨id, hout, ?_⟩
      rintro rfl
      exact step.not_outgoing_of_bead hbead hout
    · cases hnone
  · rintro (⟨id, hout, -⟩ | ⟨hlink, -⟩)
    · exact .inl ⟨id, hout, by simp, by simp⟩
    · cases hlink

/-- The list of the owning source is computed from the Links that lead from it, with the new record
of the subject. -/
theorem MemberStep.source_lists
    {pair : Endpoints} (howning : owningSource prepared = some (source, descriptor))
    (hpair : prepared.endpoints = some pair) (hpairUri : pair.1.uri = config.scope.href ++ key)
    (hid : source.id = config.scope.href ++ key) (hplain : hasScheme key = false)
    (hafter : versions.sourceAfter = some bead) :
    ListsOwned descriptor (LeadsFrom config.scope after key) bead.ownedLinks := by
  obtain ⟨huri, -, -⟩ := step.before
  obtain ⟨subject, recipe, native, hversions⟩ := makeVersions_spec step.evaluated.made
  have hmade := hversions.sourceAfter
  rw [hafter] at hmade
  obtain ⟨recipe, rfl, rfl⟩ := Option.map_eq_some_iff.mp hmade.symm
  obtain ⟨-, hnone⟩ | ⟨found, descriptor', revision, owned, howning', -, howned, hrecipe⟩ :=
    sourceRecipe_eq_ok hversions.sourceMade
  · cases hnone
  obtain ⟨rfl, rfl⟩ := Prod.mk.inj (Option.some.inj (howning.symm.trans howning'))
  obtain rfl := Option.some.inj hrecipe
  rw [hid] at howned
  have hsubject := subjectRecipe_eq_ok hversions.subjectMade
  have hversionsAfter := hversions.after
  obtain ⟨hdeleting, rfl⟩ | ⟨hdeleting, revision', -, ⟨pair', hpair', rfl⟩ | ⟨hnone, -⟩⟩ := hsubject
  · -- the subject is removed
    rw [if_pos hdeleting] at howned
    have hlists := ownedLinksOf_spec step.consistent step.reads native hplain
      (show _ = Option.map _ (none : Option String) from rfl) howned
    refine hlists.congr fun _ _ link _ ↦ ?_
    rw [step.leadsFrom_iff, hversionsAfter]
    constructor
    · rintro (⟨id, hout, hne, -⟩ | ⟨recipe, hnone, -⟩)
      · exact .inl ⟨id, hout, fun heq ↦ hne (congrArg some heq)⟩
      · cases hnone
    · rintro (⟨id, hout, hne⟩ | ⟨hlink, -⟩)
      · exact .inl ⟨id, hout, fun heq ↦ hne (Option.some.inj heq), by simp⟩
      · cases hlink
  · -- the subject is created or replaced
    obtain rfl := Option.some.inj (hpair.symm.trans hpair')
    rw [hdeleting, if_neg Bool.false_ne_true] at howned
    have hlists := ownedLinksOf_spec step.consistent step.reads native hplain
      (show _ = Option.map _ (some prepared.subject.id) by exact congrArg some huri) howned
    refine hlists.congr fun _ _ link _ ↦ ?_
    rw [step.leadsFrom_iff, hversionsAfter]
    constructor
    · rintro (⟨id, hout, -, hne⟩ | ⟨recipe, hrecipe, rfl⟩)
      · exact .inl ⟨id, hout, fun heq ↦ hne (congrArg some heq)⟩
      · obtain rfl := Option.some.inj hrecipe
        refine .inr ⟨rfl, ?_⟩
        change config.scope.localPath pair.1.uri = some key
        rw [hpairUri, UrlPath.Scope.localPath_append]
    · rintro (⟨id, hout, hne⟩ | ⟨hlink, -⟩)
      · exact .inl ⟨id, hout, by simp, fun heq ↦ hne (Option.some.inj heq)⟩
      · exact .inr ⟨_, rfl, ResourceRecord.link.inj (Option.some.inj hlink)⟩
  · rw [hnone] at hpair
    cases hpair

end

theorem Graph.Owned.step (h : graph.Owned config)
    (step : MemberStep config context graph after mutation evaluation prepared versions)
    (hrevisions : after.revisions = graph.revisions + 2) : after.Owned config := by
  have hprepared := step.evaluated.isPrepared
  obtain ⟨hne, hinstalled⟩ := step.declared
  constructor
  case typed =>
    intro key row hrow
    obtain ⟨-, hafter⟩ | ⟨source, descriptor, -, old, bead, howning, -, -, -, hold, holdBody, hafter,
      hbody⟩ | ⟨-, hrow, -⟩ := step.row_cases hrow
    · obtain ⟨-, -, hkind, -, htype⟩ := after_spec hprepared step.evaluated.made hafter
      rw [htype, hkind]
      exact ⟨hne, prepared.declared, hinstalled, hprepared.kind⟩
    · have htyped := h.typed key old hold
      rw [holdBody] at htyped
      rw [hbody]
      change bead.type ≠ "" ∧ ∃ found, config.descriptor bead.type = some found ∧ _
      rw [(step.source_record howning hafter).1]
      exact htyped
    · exact h.typed key row hrow
  case plane =>
    intro key row bead descriptor hrow hbody hdescriptor
    obtain ⟨rfl, hafter⟩ | ⟨source, found, pair, old, renewed, howning, hpair, huri, hid, hold,
      holdBody, hafter, hrenewed⟩ | ⟨hkey, hrow, hsource⟩ := step.row_cases hrow
    · rw [hbody] at hafter
      have htype := (after_spec hprepared step.evaluated.made hafter).2.2.2.2
      change bead.type = prepared.type at htype
      rw [htype, hinstalled] at hdescriptor
      obtain rfl := Option.some.inj hdescriptor
      exact step.subject_lists hafter
    · obtain rfl := ResourceRecord.bead.inj (hbody.symm.trans hrenewed)
      rw [(step.source_record howning hafter).1, step.source_descriptor howning] at hdescriptor
      obtain rfl := Option.some.inj hdescriptor
      have hplain := step.consistent.plain _
        (Table.mem_of_lookup (step.consistent.committed key old hold))
      exact step.source_lists howning hpair huri hid hplain hafter
    · refine (h.plane key row bead descriptor hrow hbody hdescriptor).congr ?_
      intro declarations howns link hdeclares
      -- an owned Link of this Bead is not the subject, or the Bead would be written too
      have hother (hout : Outgoing config.scope graph key prepared.subject.id link ∨
          Outgoing config.scope after key prepared.subject.id link) : False := by
        obtain ⟨source, howning, hid⟩ := step.owner_of_subject h hrow hbody hdescriptor howns
          hdeclares hout
        exact hsource source descriptor howning hid
      constructor
      · rintro ⟨id, hout⟩
        by_cases hid : id = prepared.subject.id
        · exact (hother (.inl (hid ▸ hout))).elim
        · exact ⟨id, (step.outgoing_other hid).mpr hout⟩
      · rintro ⟨id, hout⟩
        by_cases hid : id = prepared.subject.id
        · exact (hother (.inr (hid ▸ hout))).elim
        · exact ⟨id, (step.outgoing_other hid).mp hout⟩
  case drawn =>
    intro key row hrow
    rw [hrevisions]
    obtain ⟨-, hafter⟩ | ⟨_, _, -, -, bead, howning, -, -, -, -, -, hafter, hbody⟩ | ⟨-, hrow, -⟩ :=
      step.row_cases hrow
    · exact ⟨graph.revisions, by omega, step.subject_revision hafter⟩
    · obtain ⟨-, draw, hdraw, hrevision⟩ := step.source_record howning hafter
      rw [hbody]
      exact ⟨graph.revisions + draw, by omega, hrevision⟩
    · obtain ⟨index, hindex, hrevision⟩ := h.drawn key row hrow
      exact ⟨index, by omega, hrevision⟩

end Steps

section Runs

variable {past : List Graph}

theorem Graph.Owned.of_lookup (h : graph.Owned config)
    (hsame : ∀ key : String, after.resources[key]? = graph.resources[key]?)
    (hrevisions : graph.revisions ≤ after.revisions) : after.Owned config := by
  have hleads (owner : String) (link : LinkRecord) :
      LeadsFrom config.scope graph owner link ↔ LeadsFrom config.scope after owner link := by
    simp only [LeadsFrom, Outgoing, hsame]
  constructor
  case typed =>
    intro key row hrow
    exact h.typed key row (hsame key ▸ hrow)
  case plane =>
    intro key row bead descriptor hrow hbody hdescriptor
    have hlists := h.plane key row bead descriptor (hsame key ▸ hrow) hbody hdescriptor
    exact hlists.congr fun _ _ link _ ↦ hleads key link
  case drawn =>
    intro key row hrow
    obtain ⟨index, hindex, hrevision⟩ := h.drawn key row (hsame key ▸ hrow)
    exact ⟨index, by omega, hrevision⟩

theorem Graph.owned_empty (config : GraphConfiguration) : Graph.empty.Owned config := by
  have hnone {key : String} {row : StoredResource} : ¬ Graph.empty.resources[key]? = some row := by
    simp [Graph.empty]
  exact ⟨fun _ _ hrow ↦ absurd hrow hnone, fun _ _ _ _ hrow ↦ absurd hrow hnone,
    fun _ _ hrow ↦ absurd hrow hnone⟩

/-- Whenever an owned Link is created, changed or deleted, the Bead that owns it gets a revision that
no row had. -/
def Revises (config : GraphConfiguration) (before after : Graph) : Prop :=
  ∀ (key id : String) (row : StoredResource) (bead : BeadRecord) (descriptor : TypeDescriptor)
    (declarations : OwnedOutgoingDeclarations) (link : LinkRecord),
    before.resources[key]? = some row → row.body = .bead bead →
    config.descriptor bead.type = some descriptor → descriptor.ownsOutgoing = some declarations →
    declaresOwned declarations link.type = true →
    Outgoing config.scope before key id link ∨ Outgoing config.scope after key id link →
    before.resources[id]? ≠ after.resources[id]? →
    ∃ renewed, after.resources[key]? = some renewed ∧ renewed.kind = .bead ∧
      ∀ (other : String) (old : StoredResource), before.resources[other]? = some old →
        old.body.fields.revision ≠ renewed.body.fields.revision

theorem revises_of_same (hsame : ∀ key : String, after.resources[key]? = graph.resources[key]?) :
    Revises config graph after := by
  intro _ id _ _ _ _ _ _ _ _ _ _ _ hchanged
  exact absurd (hsame id).symm hchanged

theorem MemberStep.revises (step : MemberStep config context graph after mutation evaluation prepared
      versions) (h : graph.Owned config) (hafter : Graph.Consistent config.scope after) :
    Revises config graph after := by
  intro key id row bead descriptor declarations link hrow hbody hdescriptor howns hdeclares hlink
    hchanged
  have hid : id = prepared.subject.id := by
    by_contra hne
    -- a row that changes beside the subject is the Bead that owns it, and no Link
    by_cases hsource : ∃ source descriptor, owningSource prepared = some (source, descriptor) ∧
        source.id = config.scope.href ++ id
    · obtain ⟨source, found, howning, hsourceId⟩ := hsource
      obtain ⟨_, other, old, -, huri, hsourceId', hold, -, holdBody⟩ :=
        owningSource_spec step.consistent step.reads step.evaluated.isPrepared howning
      obtain rfl : id = other := (String.append_right_inj _).mp (hsourceId.symm.trans hsourceId')
      have hbefore : ¬ Outgoing config.scope graph key id link := by
        rintro ⟨found, hfound, hfoundBody, -⟩
        obtain rfl := Option.some.inj (hold.symm.trans hfound)
        rw [holdBody] at hfoundBody
        cases hfoundBody
      exact hlink.elim hbefore fun hout ↦ hbefore ((step.outgoing_other hne).mp hout)
    · exact hchanged (step.rewritten.kept id hne fun source found howning hsourceId ↦
        hsource ⟨source, found, howning, hsourceId⟩).symm
  subst hid
  obtain ⟨source, howning, hsourceId⟩ :=
    step.owner_of_subject h hrow hbody hdescriptor howns hdeclares hlink
  have hsome := (versions_isSome step.evaluated.made).2
  rw [howning] at hsome
  obtain ⟨renewed, hrenewed⟩ := Option.isSome_iff_exists.mp hsome
  obtain ⟨other, found, source', _, _, _, howning', -, -, hsourceId', -, -, -, hfound, hfoundBody⟩ :=
    step.rewritten.source renewed hrenewed
  obtain ⟨rfl, -⟩ := Prod.mk.inj (Option.some.inj (howning.symm.trans howning'))
  obtain rfl : key = other := (String.append_right_inj _).mp (hsourceId.symm.trans hsourceId')
  refine ⟨found, hfound, ?_, fun name old hold heq ↦ ?_⟩
  · rw [StoredResource.kind, hafter.shaped key found hfound, hfoundBody]
    rfl
  · obtain ⟨-, draw, -, hdrawn⟩ := step.source_record howning hrenewed
    obtain ⟨index, hindex, hrevision⟩ := h.drawn name old hold
    rw [hfoundBody, hrevision] at heq
    have hsame := config.revision_injective (heq.trans hdrawn)
    omega

theorem Sound.memberStep (h : Sound config.scope past graph)
    (hcaptured : CapturedFrom config (graph :: past) context mutation)
    (hplain : PlainCreation config context mutation)
    (hstep : graph.Mutated config context mutation evaluation after) :
    (∀ key : String, after.resources[key]? = graph.resources[key]?) ∨ ∃ prepared versions,
        MemberStep config context graph after mutation evaluation prepared versions := by
  obtain ⟨prepared, versions, he⟩ := evaluate_spec hstep.1
  have happlied := h.mutated hcaptured hplain hstep
  have hidentity : mutation.creating = true → hasScheme prepared.subject.id = false := by
    intro hcreating
    obtain ⟨-, hcreated⟩ | ⟨hfalse, -⟩ := mutationSubject_spec he.isPrepared.subject
    · exact (plainCreation_iff hcreating hcreated).mp hplain
    · rw [hcreating] at hfalse
      cases hfalse
  cases hnoOp : isNoOp mutation prepared with
  | true =>
    left
    intro key
    have hdeleting : mutation.deleting = false := by
      cases mutation with
      | delete kind name expected => cases hnoOp
      | _ => rfl
    have hdeleted : evaluation.deleted = none := by rw [he.deleted, hdeleting]; rfl
    have hwrites := he.writes
    rw [hnoOp] at hwrites
    obtain ⟨-, hnil⟩ | ⟨hfalse, -⟩ := writtenRows_eq_ok hwrites
    · rw [happlied.lookup, hdeleted, hnil, if_neg (by simp)]
      rfl
    · cases hfalse
  | false =>
    exact .inr ⟨prepared, versions,
      { consistent := h.consistent, reads := h.reads hcaptured, evaluated := he
        rewritten := rewritten h.consistent (h.reads hcaptured) he hidentity
          (creation_unaliased hcaptured he) hnoOp (h.effect hcaptured hplain hstep.1) happlied
        changed := hnoOp, plain := hidentity }⟩

/-- In a run of plain creations the inline copies never differ from the Links, and every change of an
owned Link revises its owner. -/
theorem GraphRun.owned (run : GraphRun config (PlainCreation config) past graph) :
    graph.Owned config ∧
      (graph :: past).IsChain fun after before ↦ Revises config before after := by
  induction run with
  | empty => exact ⟨Graph.owned_empty config, .singleton _⟩
  | @mutated past graph after context mutation evaluation run captured admitted step ih =>
    obtain ⟨howned, hchain⟩ := ih
    have happlied := run.sound.mutated captured admitted step
    obtain hsame | ⟨prepared, versions, hstep⟩ := run.sound.memberStep captured admitted step
    · exact ⟨howned.of_lookup hsame (by rw [happlied.revisions]; omega),
        List.isChain_cons_cons.mpr ⟨revises_of_same hsame, hchain⟩⟩
    · exact ⟨howned.step hstep happlied.revisions,
        List.isChain_cons_cons.mpr ⟨hstep.revises howned happlied.consistent, hchain⟩⟩
  | @aliased past graph after context mutation evaluation run step ih =>
    obtain ⟨hresources, -, hrevisions⟩ := applyAlias_tables step.2
    have hsame (key : String) : after.resources[key]? = graph.resources[key]? := by rw [hresources]
    exact ⟨ih.1.of_lookup hsame hrevisions.ge, List.isChain_cons_cons.mpr ⟨revises_of_same hsame, ih.2⟩⟩
  | unchanged run ih =>
    exact ⟨ih.1, List.isChain_cons_cons.mpr ⟨revises_of_same fun _ ↦ rfl, ih.2⟩⟩

end Runs

end Bdp.Evaluator
