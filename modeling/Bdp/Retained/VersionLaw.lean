import Bdp.Retained.VersionChain

/-!
# The law of historical versions

What an update of a historical store may do to the versions of a Bead: only an update from a
retained revision follows a terminal version, and an update under an outdated guard writes nothing.
-/

namespace Bdp.Retained

variable {config : StoreConfiguration} {store result : Store}
variable {outcome : Outcome}
variable {execute : ReferenceComparison → Store → Except Failure (Store × Outcome)}
  {captured : CapturedComparison} {baseline : UpdateBaseline} {response : StoredResponse}
  {operation : Operation} {edits : EditFields} {key : String}

section Updates

/-- The tables of the graph and its history are the same. -/
structure SameGraph (store result : Store) : Prop where
  identities : result.identities = store.identities
  resources : result.resources = store.resources
  aliases : result.aliases = store.aliases
  events : result.events = store.events
  versions : result.historicalVersions = store.historicalVersions

theorem SameGraph.refl (store : Store) : SameGraph store store := ⟨rfl, rfl, rfl, rfl, rfl⟩

def replacedState (config : StoreConfiguration) (store : Store) (id : String) (edits : EditFields)
    (candidate : ResourceState) (time : ℕ) : ResourceState :=
  rematerialized candidate edits.provenance id (config.uuids.uuid .revision store.draws.revision)
    (config.clockFormat.toISOString time)

theorem commitUpdate_cases {kind : ResourceKind} {id : String} {time : ℕ}
    {source : RetainedBead} {candidate : ResourceState}
    (update : UpdateAdmitted config store kind id edits baseline source candidate)
    (h : commitUpdate config id edits baseline candidate time store = .ok (result, outcome)) :
    SameGraph store result ∨ ∃ draws, result = (replacement baseline edits.fromRevision
        (replacedState config store id edits candidate time)
        (config.clockFormat.toISOString time)).commit config { store with draws } := by
  unfold commitUpdate at h
  split at h
  next =>
    rw [← (Prod.mk.inj (Except.ok.inj h)).1]
    exact .inl (.refl store)
  next =>
    rw [Except.bind_eq_ok] at h
    obtain ⟨instant, hnow, h⟩ := h
    obtain ⟨-, rfl⟩ := now_eq_ok.mp hnow
    have hid : (replacedState config store id edits candidate instant).resource.id = id := by
      rw [replacedState, rematerialized_resource]
      rfl
    have hlive := update.live hid (config.clockFormat.toISOString instant)
      { store.draws with revision := store.draws.revision + 1 }
    obtain ⟨-, ⟨-, rfl, -⟩ | ⟨-, -, rfl, -⟩⟩ := (Transition.complete_eq_ok _ hlive).mp h
    · exact .inl ⟨rfl, rfl, rfl, rfl, rfl⟩
    · exact .inr ⟨_, rfl⟩

theorem decideSingleton_eq_ok {principal : String}
    (h : decideSingleton config principal key operation captured execute store =
      .ok (result, response)) :
    SameGraph store result ∨ ∃ middle outcome,
      execute (store.freshComparison config captured) store = .ok (middle, outcome) ∧
        SameGraph middle result := by
  unfold decideSingleton at h
  split at h
  next =>
    rw [Except.bind_eq_ok] at h
    obtain ⟨replayed, -, h⟩ := h
    rw [← (Prod.mk.inj (Except.ok.inj h)).1]
    exact .inl (.refl store)
  next =>
    rw [Except.bind_eq_ok] at h
    obtain ⟨⟨middle, outcome⟩, hmiddle, h⟩ := h
    rw [Except.bind_eq_ok] at h
    obtain ⟨decided, hdecided, h⟩ := h
    obtain ⟨-, rfl⟩ := recordDecision_eq_ok hdecided
    rw [← (Prod.mk.inj (Except.ok.inj h)).1]
    exact .inr ⟨middle, outcome, hmiddle, ⟨rfl, rfl, rfl, rfl, rfl⟩⟩

end Updates

variable {context : RequestContext} {revision : String}

section Terminal

/-- The last version of an identity is terminal. -/
def Store.EndsWith (store : Store) (id : String) (terminal : TerminalVersion) : Prop :=
  ∃ row ∈ (store.versionsOf id).getLast?, row.body = .deleted terminal

variable {id : String} {terminal : TerminalVersion}

theorem Store.EndsWith.not_live (ends : store.EndsWith id terminal) (h : VersionInvariant store)
    (resource : RetainedBead) : store.resources[id]? ≠ some (.bead resource) := by
  intro hlive
  obtain ⟨row, hrow, hbody⟩ := ends
  obtain ⟨row', hrow', hresource⟩ := (h.live id resource).mp hlive
  rw [Option.mem_def.mp hrow] at hrow'
  rw [← Option.some.inj hrow', hbody] at hresource
  cases hresource

theorem Transition.versionsOf_commit (draws : Draws) {transition : Transition}
    (h : transition.id ≠ id ∨ transition.state.kind = .link) :
    (transition.commit config { store with draws }).versionsOf id = store.versionsOf id := by
  change (store.historicalVersions ++ transition.versions config { store with draws }).filter
    (fun (row : VersionRow) ↦ row.id == id) = _
  rw [List.filter_append]
  refine (congrArg (store.versionsOf id ++ ·) (List.filter_eq_nil_iff.mpr ?_)).trans
    (List.append_nil _)
  intro row hrow hid
  obtain ⟨hrowid, hkind⟩ := Transition.mem_versions hrow
  cases h with
  | inl other => exact other (hrowid.symm.trans (beq_iff_eq.mp hid))
  | inr link =>
    rw [link] at hkind
    cases hkind

theorem Store.EndsWith.effect (ends : store.EndsWith id terminal) (h : VersionInvariant store)
    (graph : GraphInvariant config store) (none_from : context.fromRevision = none)
    (heffect : Effect config context store result outcome) :
    result.versionsOf id = store.versionsOf id := by
  cases heffect with
  | refused => rfl
  | putAlias => rfl
  | deleteAlias => rfl
  | unchanged => rfl
  | created state time draws operation_eq drawn canonical type_reference unreserved not_alias
      endpoints admitted =>
    refine Transition.versionsOf_commit draws (.inl fun hid ↦ (admitted.created rfl).1 ?_)
    obtain ⟨row, hrow, -⟩ := ends
    have hmem := List.mem_filter.mp (List.mem_of_getLast? (Option.mem_def.mp hrow))
    rw [hid, ← beq_iff_eq.mp hmem.2]
    exact Table.mem_of_lookup (graph.versions row hmem.1)
  | updated kind updated edits baseline source candidate state time draws operation_eq from_eq
      guard_eq update type_reference changes state_eq drawn admitted =>
    obtain ⟨-, ⟨properties, metadata, -, hcandidate⟩, -⟩ :=
      updateCandidate_eq_ok.mp update.candidate_eq
    have hkind : state.kind = baseline.before.kind := by
      rw [state_eq, rematerialized_kind, hcandidate, editedState_kind]
    have hid : state.resource.id = updated := by
      rw [state_eq, rematerialized_resource]
      rfl
    obtain ⟨hversion, ⟨-, hcurrent, -⟩ | ⟨-, -, terminal, -, -, hterminal, -⟩⟩ :=
      updateBaseline_eq_some update.baseline_eq
    · have hrow := (currentState_eq_some.mp hcurrent).1
      cases hbefore : baseline.before with
      | bead resource =>
        refine Transition.versionsOf_commit draws (.inl fun same ↦ ?_)
        have same : state.resource.id = id := same
        rw [hbefore, ← hid, same] at hrow
        exact ends.not_live h resource hrow
      | link resource =>
        rw [hbefore] at hkind
        exact Transition.versionsOf_commit draws (.inr hkind)
    · rw [hversion, from_eq, none_from] at hterminal
      cases hterminal
  | deleted deleted before time operation_eq live guard unlinked admitted =>
    have hrow := (currentState_eq_some.mp live).1
    have hid := graph.linked.id_eq deleted before hrow
    cases before with
    | bead resource =>
      refine Transition.versionsOf_commit store.draws (.inl fun same ↦ ?_)
      have same : resource.id = id := same
      have hid : resource.id = deleted := hid
      rw [← hid, same] at hrow
      exact ends.not_live h resource hrow
    | link resource => exact Transition.versionsOf_commit store.draws (.inr rfl)

theorem historicalVersion_eq_some {body : VersionBody}
    (h : store.historicalVersion config id (some revision) = some body) :
    ∃ row ∈ store.versionsOf id, row.revision = revision ∧ row.body = body := by
  unfold Store.historicalVersion at h
  split at h
  next =>
    obtain ⟨row, hrow, hbody⟩ := Option.map_eq_some_iff.mp h
    have hnamed := List.find?_some hrow
    simp only [Bool.and_eq_true, beq_iff_eq] at hnamed
    exact ⟨row, List.mem_filter.mpr ⟨List.mem_of_find?_eq_some hrow, beq_iff_eq.mpr hnamed.1⟩,
      hnamed.2, hbody⟩
  next => cases h

/-- What an update from a retained revision appends to a terminal version: the edits applied to the
selected live version, under the Type of the request or of the latest live version. -/
structure Revival (store after : Store) (id : String) (terminal : TerminalVersion)
    (edits : EditFields) (new : VersionRow) (revision : String)
    (source latest resource : RetainedBead) : Prop where
  selected : edits.fromRevision = some revision
  appended : after.versionsOf id = store.versionsOf id ++ [new]
  source_row : ∃ row ∈ store.versionsOf id,
    row.revision = revision ∧ row.body.resource = some source
  latest_row : ∃ row ∈ store.versionsOf id,
    row.revision = terminal.previousRevision ∧ row.body.resource = some latest
  body : new.body = .live resource (some
    { fromRevision := revision, previousRevision := terminal.revision })
  edited : editedDocuments edits source.properties source.metadata =
    .ok (resource.properties, resource.metadata)
  type : resource.type = edits.type.getD latest.type

theorem Store.EndsWith.update (ends : store.EndsWith id terminal) (h : VersionInvariant store)
    (mode : config.historicalMode = true) {subject : String} {time : ℕ}
    (hupdate : performUpdate config .bead subject edits time store = .ok (result, outcome)) :
    result.versionsOf id = store.versionsOf id ∨ ∃ new revision source latest resource,
      Revival store result id terminal edits new revision source latest resource := by
  obtain ⟨-, -, rfl, -⟩ | ⟨baseline, source, candidate, update, hcommit⟩ :=
    performUpdate_admitted hupdate
  · exact .inl rfl
  obtain same | ⟨draws, rfl⟩ := commitUpdate_cases update hcommit
  · left
    rw [Store.versionsOf, same.versions]
    rfl
  have hsubject : (replacedState config store subject edits candidate time).resource.id =
      subject := by
    rw [replacedState, rematerialized_resource]
    rfl
  by_cases hid : subject = id
  swap
  · refine .inl (Transition.versionsOf_commit draws (.inl fun same ↦ hid ?_))
    exact hsubject.symm.trans same
  subst hid
  obtain ⟨hversion, ⟨-, hcurrent, -⟩ | ⟨hrecovering, -, terminal', latest, context, hterminal,
    hlatest, hbefore, hprevious⟩⟩ := updateBaseline_eq_some update.baseline_eq
  · obtain ⟨hrow, -, hkind⟩ := currentState_eq_some.mp hcurrent
    cases hbefore : baseline.before with
    | bead resource =>
      rw [hbefore] at hrow
      exact absurd hrow (ends.not_live h resource)
    | link resource =>
      rw [hbefore] at hkind
      rcases hkind with hkind | hkind <;> cases hkind
  cases hfrom : edits.fromRevision with
  | none =>
    rw [hversion, hfrom] at hterminal
    cases hterminal
  | some revision =>
    -- The terminal version that the baseline read is the last one.
    have hterminals : terminal' = terminal := by
      rw [hversion] at hterminal
      obtain ⟨last, hlast, hbody⟩ := VersionInvariant.selectedVersion_eq_some hterminal
      obtain ⟨row, hrow, hrowbody⟩ := ends
      rw [Option.mem_def.mp hrow] at hlast
      rw [← Option.some.inj hlast, hrowbody] at hbody
      exact (VersionBody.deleted.inj hbody).symm
    subst hterminals
    obtain ⟨hnone, -⟩ | ⟨revision', context', hsome, hsource⟩ :=
      selectSource_eq_source.mp update.source_eq
    · rw [hfrom] at hnone
      cases hnone
    rw [hfrom] at hsome
    obtain rfl := Option.some.inj hsome
    obtain ⟨-, ⟨properties, metadata, hdocuments, hcandidate⟩, -⟩ :=
      updateCandidate_eq_ok.mp update.candidate_eq
    obtain ⟨sourceRow, sourceRow_mem, sourceRow_revision, sourceRow_body⟩ :=
      historicalVersion_eq_some hsource
    obtain ⟨latestRow, latestRow_mem, latestRow_revision, latestRow_body⟩ :=
      historicalVersion_eq_some hlatest
    have hkind : (replacedState config store subject edits candidate time).kind = .bead := by
      rw [replacedState, rematerialized_kind, hcandidate, editedState_kind, hbefore]
      rfl
    have hresource : (replacedState config store subject edits candidate time).resource =
        materializeBead (edits.type.getD latest.type) properties metadata edits.provenance subject
          (config.uuids.uuid .revision store.draws.revision)
          (config.clockFormat.toISOString time) := by
      rw [replacedState, rematerialized_resource, hcandidate, editedState_resource, hbefore]
      rfl
    have hverb : (replacement baseline (some revision)
        (replacedState config store subject edits candidate time)
        (config.clockFormat.toISOString time)).verb ≠ .delete := LifecycleVerb.noConfusion
    obtain ⟨new, hversions, hnew, hbody⟩ : ∃ new : VersionRow,
        (replacement baseline (some revision)
          (replacedState config store subject edits candidate time)
          (config.clockFormat.toISOString time)).versions config { store with draws } = [new] ∧
        new.id = subject ∧ new.body = .live
          (replacedState config store subject edits candidate time).resource
          (some { fromRevision := revision, previousRevision := terminal'.revision }) := by
      refine ⟨_, if_pos ⟨mode, hkind⟩, hsubject, (Transition.versionBody_live hverb).trans ?_⟩
      rw [replacement, hprevious]
      rfl
    refine .inr ⟨new, revision, source, latest, _, hfrom, ?_, ⟨sourceRow, sourceRow_mem,
      sourceRow_revision, ?_⟩, ⟨latestRow, latestRow_mem, latestRow_revision, ?_⟩, hbody, ?_, ?_⟩
    · change (store.historicalVersions ++ Transition.versions config _ _).filter
        (fun (row : VersionRow) ↦ row.id == subject) = _
      rw [hversions, List.filter_append, List.filter_singleton, beq_iff_eq.mpr hnew, cond_true]
      rfl
    · rw [sourceRow_body]
      rfl
    · rw [latestRow_body]
      rfl
    · rw [hresource]
      exact hdocuments
    · rw [hresource]
      rfl

end Terminal

section Law

theorem Owner.serve_cases (owner : Owner) (request : Request config) (clock : ℕ → ℕ) :
    (owner.serve request clock).1.store = owner.store ∨ ∃ reply,
      request.decide clock owner.store = .ok ((owner.serve request clock).1.store, reply) := by
  unfold Owner.serve Owner.transaction
  split
  next => exact .inl rfl
  next =>
    split
    next => exact .inl rfl
    next =>
      split
      next decided reply h => exact .inr ⟨reply, h⟩
      next => exact .inl rfl

variable {id : String} {terminal : TerminalVersion}

theorem SameGraph.versionsOf (h : SameGraph store result) :
    result.versionsOf id = store.versionsOf id := by
  rw [Store.versionsOf, h.versions]
  rfl

variable {principal : String}

theorem Store.EndsWith.decided (ends : store.EndsWith id terminal) (h : VersionInvariant store)
    (graph : GraphInvariant config store) (none_from : context.fromRevision = none)
    (hexecute : ∀ middle outcome,
      execute (store.freshComparison config captured) store = .ok (middle, outcome) →
        Effect config context store middle outcome)
    (hdecided : decideSingleton config principal key operation captured execute store =
      .ok (result, response)) : result.versionsOf id = store.versionsOf id := by
  obtain same | ⟨middle, outcome, hmiddle, same⟩ := decideSingleton_eq_ok hdecided
  · exact same.versionsOf
  · rw [same.versionsOf, ends.effect h graph none_from (hexecute middle outcome hmiddle)]

variable {clock : ℕ → ℕ} {reply : Reply}

theorem Store.EndsWith.served (ends : store.EndsWith id terminal) (h : VersionInvariant store)
    (graph : GraphInvariant config store) (mode : config.historicalMode = true)
    {request : Request config} (hdecide : request.decide clock store = .ok (result, reply)) :
    result.versionsOf id = store.versionsOf id ∨
      ∃ principal input, request = .update principal input ∧ ∃ new revision source latest resource,
          Revival store result id terminal input.edits new revision source latest resource := by
  cases request with
  | create principal input =>
    obtain ⟨stored, hdecided, rfl⟩ := stored_eq_ok hdecide
    exact .inl (ends.decided h graph rfl
      (fun _ _ heffect ↦ applyCreate_effect heffect) hdecided)
  | update principal input =>
    obtain ⟨stored, hdecided, rfl⟩ := stored_eq_ok hdecide
    obtain same | ⟨middle, outcome, hmiddle, same⟩ := decideSingleton_eq_ok hdecided
    · exact .inl same.versionsOf
    unfold applyUpdate at hmiddle
    split at hmiddle
    next =>
      rw [← (Prod.mk.inj (Except.ok.inj hmiddle)).1] at same
      exact .inl same.versionsOf
    next =>
      rw [Except.bind_eq_ok] at hmiddle
      obtain ⟨subject, -, hmiddle⟩ := hmiddle
      cases subject with
      | none =>
        rw [← (Prod.mk.inj (Except.ok.inj hmiddle)).1] at same
        exact .inl same.versionsOf
      | some subject =>
        obtain kept | ⟨new, revision, source, latest, resource, revival⟩ :=
          ends.update h mode hmiddle
        · exact .inl (same.versionsOf.trans kept)
        · refine .inr ⟨principal, input, rfl, new, revision, source, latest, resource, ?_⟩
          exact { revival with appended := same.versionsOf.trans revival.appended }
  | deleteBead principal input =>
    obtain ⟨stored, hdecided, rfl⟩ := stored_eq_ok hdecide
    exact .inl (ends.decided h graph rfl (fun _ _ heffect ↦ applyDelete_effect heffect) hdecided)
  | link principal input =>
    obtain ⟨stored, hdecided, rfl⟩ := stored_eq_ok hdecide
    exact .inl (ends.decided h graph input.edits_fromRevision
      (fun _ _ heffect ↦ applyLink_effect heffect) hdecided)
  | changeAlias principal input =>
    obtain ⟨stored, hdecided, rfl⟩ := stored_eq_ok hdecide
    exact .inl (ends.decided h graph rfl (fun _ _ heffect ↦ applyAlias_effect heffect) hdecided)
  | batch principal input =>
    obtain ⟨stored, hdecided, rfl⟩ := stored_eq_ok hdecide
    unfold applyBatch at hdecided
    split at hdecided
    next =>
      rw [Except.bind_eq_ok] at hdecided
      obtain ⟨replayed, -, hdecided⟩ := hdecided
      rw [(Prod.mk.inj (Except.ok.inj hdecided)).1]
      exact .inl rfl
    next =>
      rw [if_pos (.inl (Bool.eq_false_iff.mpr (not_batchMode mode)))] at hdecided
      rw [(Prod.mk.inj (Except.ok.inj hdecided)).1]
      exact .inl rfl
  | events principal source subject selection =>
    rw [Request.decide, Except.bind_eq_ok] at hdecide
    obtain ⟨⟨read, page, rows⟩, hread, hdecide⟩ := hdecide
    obtain ⟨rfl, rfl⟩ := Prod.mk.inj (Except.ok.inj hdecide)
    obtain ⟨window, hread⟩ := eventPage_eq_ok hread
    obtain ⟨cursors, draws, rfl⟩ := hread.only_cursors
    exact .inl rfl

theorem Effect.link_buried
    (graph : GraphInvariant config store) (hlink : store.identities[id]? = some .link)
    (hdead : store.resources[id]? = none)
    (heffect : Effect config context store result outcome) : result.resources[id]? = none := by
  cases heffect with
  | refused => exact hdead
  | putAlias => exact hdead
  | deleteAlias => exact hdead
  | unchanged => exact hdead
  | created state time draws operation_eq drawn canonical type_reference unreserved not_alias
      endpoints admitted =>
    have hne : state.resource.id ≠ id := fun hid ↦
      (admitted.created rfl).1 (Table.mem_of_lookup (hid ▸ hlink))
    exact (Table.lookup_insert_of_ne hne).trans hdead
  | updated kind updated edits baseline source candidate state time draws operation_eq from_eq
      guard_eq update type_reference changes state_eq drawn admitted =>
    have hstate : state.resource.id = updated := by
      rw [state_eq, rematerialized_resource]
      rfl
    have hne : state.resource.id ≠ id := by
      intro hid
      have hidentity := graph.baseline update.baseline_eq
      rw [← hstate, hid] at hidentity
      obtain ⟨-, ⟨-, hcurrent, -⟩ | ⟨-, -, -, latest, -, -, -, hbefore, -⟩⟩ :=
        updateBaseline_eq_some update.baseline_eq
      · have hrow := (currentState_eq_some.mp hcurrent).1
        rw [← hstate, hid, hdead] at hrow
        cases hrow
      · rw [hbefore, hlink] at hidentity
        cases hidentity
    exact (Table.lookup_insert_of_ne hne).trans hdead
  | deleted deleted before time operation_eq live guard unlinked admitted =>
    change (store.resources.erase before.resource.id)[id]? = none
    rw [Table.lookup_erase]
    split
    · rfl
    · exact hdead

theorem Step.link_buried (graph : GraphInvariant config store) (mode : config.historicalMode = true)
    (hlink : store.identities[id]? = some .link) (hdead : store.resources[id]? = none)
    (hstep : Step config store result) : result.resources[id]? = none := by
  cases hstep with
  | same => exact hdead
  | paged principal source subject selection clock result page rows read =>
    obtain ⟨window, hread⟩ := eventPage_eq_ok read
    obtain ⟨cursors, draws, rfl⟩ := hread.only_cursors
    exact hdead
  | decided principal key captured context middle outcome fresh captures guards effect capacity =>
    have hmiddle := effect.link_buried graph hlink hdead
    exact hmiddle
  | refusedBatch => exact hdead
  | acceptedBatch principal input clock graph evaluation facts batch =>
    exact absurd batch (not_batchMode mode)

theorem Owner.Run.link_buried (mode : config.historicalMode = true) {owner later : Owner}
    (h : owner.Reachable config) (run : Owner.Run config owner later)
    (hlink : owner.store.identities[id]? = some .link)
    (hdead : owner.store.resources[id]? = none) : later.store.resources[id]? = none := by
  suffices GraphInvariant config later.store ∧ later.store.identities[id]? = some .link ∧
      later.store.resources[id]? = none from this.2.2
  refine run.invariant (P := fun store ↦ GraphInvariant config store ∧
    store.identities[id]? = some .link ∧ store.resources[id]? = none)
    ⟨graphInvariant_of_reachable h, hlink, hdead⟩ ?_
  rintro store result ⟨graph, hlink, hdead⟩ hstep
  exact ⟨graph.step hstep, hstep.identitiesKept graph id .link hlink,
    hstep.link_buried graph mode hlink hdead⟩

theorem baseline_bead {selected : Bool}
    (h : store.updateBaseline config .bead id selected = .ok (some baseline)) :
    baseline.before.kind = .bead := by
  obtain ⟨-, ⟨-, hcurrent, -⟩ | ⟨-, -, -, latest, -, -, -, hbefore, -⟩⟩ := updateBaseline_eq_some h
  · have hkind := (currentState_eq_some.mp hcurrent).2.2
    simpa [eq_comm] using hkind
  · rw [hbefore]
    rfl

theorem update_guarded (h : VersionInvariant store) {input : PreparedUpdate config}
    (hguard : input.edits.expectedRevision = some revision)
    (hsubject : resolvedSubject (store.freshComparison config input.comparison) input.bead =
      .ok (some id)) (hlast : lastRevision none (store.versionsOf id) ≠ some revision)
    (hdecide : (Request.update principal input).decide clock store = .ok (result, reply)) :
    SameGraph store result := by
  obtain ⟨stored, hdecided, rfl⟩ := stored_eq_ok hdecide
  obtain same | ⟨middle, outcome, hmiddle, same⟩ := decideSingleton_eq_ok hdecided
  · exact same
  unfold applyUpdate at hmiddle
  split at hmiddle
  next =>
    rw [← (Prod.mk.inj (Except.ok.inj hmiddle)).1] at same
    exact same
  next =>
    rw [hsubject, Except.ok_bind] at hmiddle
    obtain ⟨-, -, rfl, -⟩ | ⟨baseline, source, candidate, update, -⟩ :=
        performUpdate_admitted hmiddle
    · exact same
    · have hprevious := update.guard revision hguard
      rw [h.baseline_last update.baseline_eq (baseline_bead update.baseline_eq), hprevious] at hlast
      exact absurd rfl hlast

theorem link_guarded {input : PreparedLink config} (hoperation : input.operation = .updateLink)
    (hguard : input.edits.expectedRevision = some revision)
    (hother : ∀ state, store.resources[input.link]? = some state →
      state.resource.revision ≠ revision)
    (hdecide : (Request.link principal input).decide clock store = .ok (result, reply)) :
    SameGraph store result := by
  obtain ⟨stored, hdecided, rfl⟩ := stored_eq_ok hdecide
  obtain same | ⟨middle, outcome, hmiddle, same⟩ := decideSingleton_eq_ok hdecided
  · exact same
  unfold applyLink at hmiddle
  split at hmiddle
  next =>
    rw [← (Prod.mk.inj (Except.ok.inj hmiddle)).1] at same
    exact same
  next =>
    split at hmiddle
    next =>
      rw [← (Prod.mk.inj (Except.ok.inj hmiddle)).1] at same
      exact same
    next edits hedits =>
      obtain ⟨source, target, rfl⟩ := resolvedEndpoints_eq_some hedits
      rw [hoperation] at hmiddle
      obtain ⟨-, -, rfl, -⟩ | ⟨baseline, source, candidate, update, -⟩ :=
        performUpdate_admitted hmiddle
      · exact same
      · have hprevious := update.guard revision hguard
        obtain ⟨hversion, ⟨-, hcurrent, hrevision⟩ | ⟨-, -, terminal, -, -, hterminal, -⟩⟩ :=
          updateBaseline_eq_some update.baseline_eq
        · have hrow := (currentState_eq_some.mp hcurrent).1
          exact absurd (hrevision.symm.trans hprevious.symm) (hother _ hrow)
        · have hnone : input.edits.fromRevision = none := input.edits_fromRevision
          rw [hversion, Store.selectedVersion] at hterminal
          dsimp only at hterminal
          rw [hnone] at hterminal
          cases hterminal

/-- The law of the versions of a historical store. -/
structure VersionLaw (config : StoreConfiguration) (owner : Owner) : Prop where
  /-- Events have positions of their own. -/
  recorded : owner.store.events.Pairwise fun left right ↦ left.position < right.position
  /-- The versions of an identity, in the order of their positions. -/
  ordered : ∀ id, (owner.store.versionsOf id).Pairwise fun (left right : VersionRow) ↦
    left.position < right.position
  distinct : ∀ id, ((owner.store.versionsOf id).map VersionRow.revision).Nodup
  /-- Every version names the revision just before it. -/
  chained : ∀ id, owner.store.Chained none (owner.store.versionsOf id)
  /-- Only an update from a retained revision follows a terminal version. -/
  revived : ∀ id terminal, owner.store.EndsWith id terminal →
    ∀ (request : Request config) (clock : ℕ → ℕ),
      (owner.serve request clock).1.store.versionsOf id = owner.store.versionsOf id ∨
        ∃ principal input, request = .update principal input ∧
          ∃ new revision source latest resource,
            Revival owner.store (owner.serve request clock).1.store id terminal input.edits new
              revision source latest resource
  /-- A deleted Link is never live again. -/
  buried : ∀ id : String, owner.store.identities[id]? = some .link →
    owner.store.resources[id]? = none →
      ∀ later, Owner.Run config owner later → later.store.resources[id]? = none
  /-- An update under an outdated guard changes nothing. -/
  guarded : ∀ principal (input : PreparedUpdate config) clock id revision,
    input.edits.expectedRevision = some revision →
    resolvedSubject (owner.store.freshComparison config input.comparison) input.bead =
      .ok (some id) →
    lastRevision none (owner.store.versionsOf id) ≠ some revision →
      SameGraph owner.store (owner.serve (.update principal input) clock).1.store
  guarded_link : ∀ principal (input : PreparedLink config) clock revision,
    input.operation = .updateLink → input.edits.expectedRevision = some revision →
    (∀ state, owner.store.resources[input.link]? = some state →
      state.resource.revision ≠ revision) →
      SameGraph owner.store (owner.serve (.link principal input) clock).1.store

theorem VersionInvariant.distinct_of (h : VersionInvariant store) (id : String) :
    ((store.versionsOf id).map VersionRow.revision).Nodup := by
  have hnodup := h.distinct.sublist ((List.filter_sublist
    (p := fun (row : VersionRow) ↦ row.id == id)).map
      fun (row : VersionRow) ↦ (row.id, row.revision))
  refine (List.nodup_map_iff_inj_on (List.Nodup.of_map _ hnodup)).mpr ?_
  intro left hleft right hright same
  have hleft_id := beq_iff_eq.mp (List.mem_filter.mp hleft).2
  have hright_id := beq_iff_eq.mp (List.mem_filter.mp hright).2
  exact List.inj_on_of_nodup_map hnodup hleft hright
    (Prod.ext (hleft_id.trans hright_id.symm) same)

theorem version_law (mode : config.historicalMode = true) {owner : Owner}
    (h : owner.Reachable config) : VersionLaw config owner := by
  have graph := graphInvariant_of_reachable h
  have log := logInvariant_of_reachable h
  have hversions := versionInvariant_of_reachable mode h
  constructor
  case recorded => exact log.ascending
  case ordered => exact fun id ↦ hversions.ascending.filter _
  case distinct => exact hversions.distinct_of
  case chained => exact hversions.chained
  case revived =>
    intro id terminal ends request clock
    obtain same | ⟨reply, hdecide⟩ := owner.serve_cases request clock
    · exact .inl (congrArg (Store.versionsOf · id) same)
    · exact ends.served hversions graph mode hdecide
  case buried => exact fun id hlink hdead later run ↦ run.link_buried mode h hlink hdead
  case guarded =>
    intro principal input clock id revision hguard hsubject hlast
    obtain same | ⟨reply, hdecide⟩ := owner.serve_cases (.update principal input) clock
    · rw [same]
      exact .refl _
    · exact update_guarded hversions hguard hsubject hlast hdecide
  case guarded_link =>
    intro principal input clock revision hoperation hguard hother
    obtain same | ⟨reply, hdecide⟩ := owner.serve_cases (.link principal input) clock
    · rw [same]
      exact .refl _
    · exact link_guarded hoperation hguard hother hdecide

theorem admissionRefusal_none : IsAdmissionRefusal none := nofun

theorem uniqueNames_nil : (JsonValue.object ([] : JsonObject)).uniqueNames = true := rfl

/-- A change of the properties of a Bead, from its latest version or from a retained one. -/
def countedUpdate (format : StoreFormat) (key name : String) (fromRevision : Option String) :
    PreparedUpdate (countedConfiguration format) where
  key
  comparison :=
    { format := "retained-v01-update-1", media := RETAINED_MEDIA, capabilities := []
      operation := .updateBead
      input := ("bead", .string (inScope name)) ::
        fromRevision.toList.map fun revision ↦ ("fromRevision", .string revision)
      slots := [(.bead, .floating (inScope name))] }
  bead := inScope name
  edits := { EditFields.empty with
    propertiesChange := some [.replace "" (.object [("note", .string key)])]
    fromRevision }
  refusal := none
  operation_eq := rfl
  slots_eq := rfl
  input_nodup := by cases fromRevision <;> simp
  input_bead := rfl
  input_fromRevision := by cases fromRevision <;> rfl
  input_expectedRevision _ := by cases fromRevision <;> rfl
  type_reference _ h := nomatch h
  unique_names := rfl
  endpoints_none := ⟨rfl, rfl⟩
  refusal_validation := admissionRefusal_none

def countedDelete (key name : String) : PreparedDelete where
  key
  comparison :=
    { format := "retained-v01-delete-1", media := RETAINED_MEDIA, capabilities := []
      operation := .deleteBead, input := [("bead", .string (inScope name))]
      slots := [(.bead, .floating (inScope name))] }
  bead := inScope name
  expectedRevision := none
  operation_eq := rfl
  slots_eq := rfl
  input_nodup := by simp
  input_bead := rfl

/-- A Bead that was created, updated, deleted and revived from its first version. -/
def revivedOwner : Owner :=
  (Owner.provisioned (countedConfiguration .historical)).serveAll
    [(.create "p" (countedCreate .historical "k1" "x" [] uniqueNames_nil), fun _ ↦ 0),
      (.update "p" (countedUpdate .historical "k2" "x" none), fun _ ↦ 1),
      (.deleteBead "p" (countedDelete "k3" "x"), fun _ ↦ 2),
      (.update "p" (countedUpdate .historical "k4" "x" (some "r0")), fun _ ↦ 3)]

theorem revivedOwner_reachable : revivedOwner.Reachable (countedConfiguration .historical) := by
  unfold revivedOwner
  exact Owner.run_serveAll _ _ _

theorem version_law_revived :
    VersionLaw (countedConfiguration .historical) revivedOwner ∧
      (revivedOwner.store.versionsOf (inScope "x")).map (fun row ↦
        (row.position, row.revision, row.body.resource.isSome)) =
          [(1, "r0", true), (2, "r1", true), (3, "r2", false), (4, "r3", true)] :=
  ⟨version_law rfl revivedOwner_reachable, by decide +kernel⟩

end Law

end Bdp.Retained
