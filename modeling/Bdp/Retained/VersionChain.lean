import Bdp.Retained.EventLog
import Bdp.Retained.GraphInvariant

/-!
# The chain of historical versions

A historical store retains one version for each transition of a Bead. The versions of an identity
name each other in the order of their positions, and the last of them is the live record or the
terminal version of a deleted Bead.
-/

namespace Bdp.Retained

open List (append_nil)

variable {config : StoreConfiguration} {store result : Store}
variable {row : VersionRow}

section Chain

/-- The versions of an identity, in the order of their positions. -/
def Store.versionsOf (store : Store) (id : String) : List VersionRow :=
  store.historicalVersions.filter fun (row : VersionRow) ↦ row.id == id

/-- The event of a version names the revision before it. -/
def Store.Precedes (store : Store) (previous : Option String) (row : VersionRow) : Prop :=
  ∃ fact, { position := row.position, subject := row.id, fact } ∈ store.events ∧
    fact.previousRevision = previous ∧ fact.revision = row.revision

/-- Every version names the one before it, and the first one names none. -/
def Store.Chained (store : Store) : Option String → List VersionRow → Prop
  | _, [] => True
  | previous, row :: rows =>
    store.Precedes previous row ∧ Store.Chained store (some row.revision) rows

/-- The revision that a next version has to name. -/
def lastRevision (previous : Option String) (rows : List VersionRow) : Option String :=
  rows.getLast?.elim previous fun (row : VersionRow) ↦ some row.revision

theorem lastRevision_cons (previous : Option String) (row : VersionRow) (rows : List VersionRow) :
    lastRevision previous (row :: rows) = lastRevision (some row.revision) rows := by
  cases rows with
  | nil => rfl
  | cons next rows =>
    rw [lastRevision, List.getLast?_cons_cons, lastRevision, List.getLast?_cons]
    rfl

variable {previous : Option String} {rows : List VersionRow}

theorem Store.chained_concat :
    store.Chained previous (rows ++ [row]) ↔
      store.Chained previous rows ∧ store.Precedes (lastRevision previous rows) row := by
  induction rows generalizing previous with
  | nil =>
    rw [List.nil_append]
    exact ⟨fun h ↦ ⟨trivial, h.1⟩, fun h ↦ ⟨h.2, trivial⟩⟩
  | cons first rows ih =>
    rw [lastRevision_cons, List.cons_append]
    change store.Precedes previous first ∧ store.Chained (some first.revision) (rows ++ [row]) ↔ _
    rw [ih, ← and_assoc]
    rfl

theorem Store.Chained.mono
    (h : store.Chained previous rows) (events : ∀ row ∈ store.events, row ∈ result.events) :
    result.Chained previous rows := by
  induction rows generalizing previous with
  | nil => trivial
  | cons row rows ih =>
    obtain ⟨⟨fact, hevent, hfact⟩, hrest⟩ := h
    exact ⟨⟨fact, events _ hevent, hfact⟩, ih hrest⟩

end Chain

theorem not_batchMode (mode : config.historicalMode = true) : ¬ config.batchMode = true := by
  unfold StoreConfiguration.historicalMode at mode
  unfold StoreConfiguration.batchMode
  rw [beq_iff_eq.mp mode]
  decide

section Bodies

theorem versionBody_revision (fact : LifecycleFact) (historical : Option HistoricalSelection) :
    (versionBody fact historical).revision = fact.revision := by
  unfold versionBody LifecycleFact.revision
  cases fact.terminal <;> rfl

variable {transition : Transition}

theorem Transition.fact_terminal (h : transition.verb ≠ .delete) :
    (transition.fact config store).terminal = none := if_neg fun hdelete ↦ h hdelete.2.2

theorem Transition.versionBody_live (h : transition.verb ≠ .delete) :
    versionBody (transition.fact config store) transition.historical =
      .live transition.state.resource
        (transition.historical.map HistoricalSelection.context) := by
  unfold versionBody
  rw [fact_terminal h]
  rfl

theorem Transition.fact_deleted (mode : config.historicalMode = true)
    (hkind : transition.state.kind = .bead) (h : transition.verb = .delete) :
    (transition.fact config store).terminal =
      some { id := transition.state.resource.id
             revision := config.uuids.uuid .revision store.draws.revision
             previousRevision := transition.state.resource.revision } := if_pos ⟨mode, hkind, h⟩

theorem Transition.lookup_resources (transition : Transition) (mode : config.historicalMode = true)
    (hkind : transition.state.kind = .bead) :
    (transition.resources store)[transition.id]? =
      (versionBody (transition.fact config store) transition.historical).resource.map .bead := by
  unfold Transition.resources
  split
  next h =>
    rw [Table.lookup_erase, if_pos rfl, versionBody, fact_deleted mode hkind h]
    rfl
  next h =>
    rw [Table.lookup_insert_self, versionBody_live h]
    cases hstate : transition.state with
    | bead resource => rfl
    | link resource =>
      rw [hstate] at hkind
      cases hkind

end Bodies

section Invariant

/-- The versions of a historical store. -/
structure VersionInvariant (store : Store) : Prop where
  ascending : store.historicalVersions.Pairwise fun (left right : VersionRow) ↦
    left.position < right.position
  bounded : ∀ row ∈ store.historicalVersions, row.position ≤ store.events.length
  distinct : (store.historicalVersions.map fun (row : VersionRow) ↦ (row.id, row.revision)).Nodup
  bodies : ∀ row ∈ store.historicalVersions, row.body.revision = row.revision
  chained : ∀ id, store.Chained none (store.versionsOf id)
  /-- The last version of an identity is its live record, unless it is terminal. -/
  live : ∀ (id : String) (resource : RetainedBead),
    store.resources[id]? = some (.bead resource) ↔
      ∃ row ∈ (store.versionsOf id).getLast?, row.body.resource = some resource

theorem versionInvariant_empty : VersionInvariant (Store.empty config) where
  ascending := List.Pairwise.nil
  bounded _ h := nomatch h
  distinct := List.nodup_nil
  bodies _ h := nomatch h
  chained _ := trivial
  live id resource := by simp [Store.empty, Store.versionsOf]

namespace VersionInvariant

theorem unversioned (h : VersionInvariant store)
    (hversions : result.historicalVersions = store.historicalVersions)
    (hevents : ∃ rows, result.events = store.events ++ rows)
    (hbeads : ∀ (id : String) (resource : RetainedBead),
      result.resources[id]? = some (.bead resource) ↔
        store.resources[id]? = some (.bead resource)) :
    VersionInvariant result := by
  obtain ⟨rows, hevents⟩ := hevents
  have hof (id : String) : result.versionsOf id = store.versionsOf id := by
    rw [Store.versionsOf, hversions]
    rfl
  refine ⟨hversions ▸ h.ascending, ?_, hversions ▸ h.distinct, hversions ▸ h.bodies, ?_, ?_⟩
  · intro row hrow
    rw [hversions] at hrow
    rw [hevents, List.length_append]
    exact (h.bounded row hrow).trans (Nat.le_add_right _ _)
  · intro id
    rw [hof]
    refine (h.chained id).mono fun row hrow ↦ ?_
    rw [hevents]
    exact List.mem_append_left _ hrow
  · intro id resource
    rw [hbeads, hof]
    exact h.live id resource

theorem versioned (h : VersionInvariant store) {fact : LifecycleFact}
    (hversions : result.historicalVersions = store.historicalVersions ++ [row])
    (hevents : result.events =
      store.events ++ [{ position := row.position, subject := row.id, fact }])
    (hposition : row.position = store.events.length + 1)
    (hfresh : (row.id, row.revision) ∉ store.historicalVersions.map fun (old : VersionRow) ↦
      (old.id, old.revision))
    (hbody : row.body.revision = row.revision) (hrevision : fact.revision = row.revision)
    (hprevious : fact.previousRevision = lastRevision none (store.versionsOf row.id))
    (hothers : ∀ other, other ≠ row.id → result.resources[other]? = store.resources[other]?)
    (hlive : result.resources[row.id]? = row.body.resource.map .bead) :
    VersionInvariant result := by
  have hof (id : String) : result.versionsOf id =
      store.versionsOf id ++ if row.id = id then [row] else [] := by
    rw [Store.versionsOf, hversions, List.filter_append, Store.versionsOf, List.filter_singleton]
    by_cases hid : row.id = id
    · rw [if_pos hid, beq_iff_eq.mpr hid, cond_true]
    · rw [if_neg hid, beq_eq_false_iff_ne.mpr hid, cond_false]
  have hkept (id : String) : result.Chained none (store.versionsOf id) := by
    refine (h.chained id).mono fun event hevent ↦ ?_
    rw [hevents]
    exact List.mem_append_left _ hevent
  refine ⟨?_, ?_, ?_, ?_, ?_, ?_⟩
  · rw [hversions]
    refine List.pairwise_append.mpr ⟨h.ascending, List.pairwise_singleton _ _, ?_⟩
    intro old hold new hnew
    rw [List.mem_singleton.mp hnew, hposition]
    exact Nat.lt_succ_of_le (h.bounded old hold)
  · intro other hother
    rw [hversions] at hother
    rw [hevents, List.length_append, List.length_singleton]
    rcases List.mem_append.mp hother with hold | hnew
    · exact (h.bounded other hold).trans (Nat.le_succ _)
    · rw [List.mem_singleton.mp hnew, hposition]
  · rw [hversions, List.map_append, List.map_singleton]
    refine List.nodup_append.mpr ⟨h.distinct, List.nodup_singleton _, ?_⟩
    intro old hold new hnew heq
    rw [heq, List.mem_singleton.mp hnew] at hold
    exact hfresh hold
  · intro other hother
    rw [hversions] at hother
    rcases List.mem_append.mp hother with hold | hnew
    · exact h.bodies other hold
    · rw [List.mem_singleton.mp hnew, hbody]
  · intro id
    rw [hof]
    by_cases hid : row.id = id
    · rw [if_pos hid, Store.chained_concat]
      refine ⟨hkept id, fact, ?_, hid ▸ hprevious, hrevision⟩
      rw [hevents]
      exact List.mem_append_right _ (List.mem_singleton_self _)
    · rw [if_neg hid, append_nil]
      exact hkept id
  · intro id resource
    rw [hof]
    by_cases hid : row.id = id
    · rw [if_pos hid, List.getLast?_concat, ← hid, hlive]
      simp
    · rw [if_neg hid, append_nil, hothers id (Ne.symm hid)]
      exact h.live id resource

variable {id : String}

theorem lastRevision_live (h : VersionInvariant store) {resource : RetainedBead}
    (hlive : store.resources[id]? = some (.bead resource)) :
    lastRevision none (store.versionsOf id) = some resource.revision := by
  obtain ⟨row, hrow, hresource⟩ := (h.live id resource).mp hlive
  have hmem : row ∈ store.historicalVersions :=
    (List.mem_filter.mp (List.mem_of_getLast? (Option.mem_def.mp hrow))).1
  have hbody := h.bodies row hmem
  rw [lastRevision, Option.mem_def.mp hrow, Option.elim_some, ← hbody]
  cases hversion : row.body with
  | live found context =>
    rw [hversion] at hresource
    cases hresource
    rfl
  | deleted terminal =>
    rw [hversion] at hresource
    cases hresource

variable {selected : Bool}

theorem selectedVersion_eq_some {body : VersionBody}
    (h : store.selectedVersion config id selected = some body) :
    ∃ row, (store.versionsOf id).getLast? = some row ∧ row.body = body := by
  unfold Store.selectedVersion Store.historicalVersion at h
  split at h
  · split at h
    · exact Option.map_eq_some_iff.mp h
    · cases h
  · cases h

theorem versionsOf_fresh (graph : GraphInvariant config store)
    (hid : id ∉ store.identities) : store.versionsOf id = [] := by
  refine List.filter_eq_nil_iff.mpr fun row hrow hrowid ↦ hid ?_
  rw [← beq_iff_eq.mp hrowid]
  exact Table.mem_of_lookup (graph.versions row hrow)

section

variable (h : VersionInvariant store)
include h

variable {transition : Transition}

theorem commit_bead (log : LogInvariant config store)
    (draws : Draws) (mode : config.historicalMode = true) (hkind : transition.state.kind = .bead)
    (admitted : transition.Admitted config { store with draws })
    (hprevious : (transition.fact config { store with draws }).previousRevision =
      lastRevision none (store.versionsOf transition.id)) :
    VersionInvariant (transition.commit config { store with draws }) := by
  have hrows : transition.versions config { store with draws } =
      [{ id := transition.id
         revision := (versionBody (transition.fact config { store with draws })
           transition.historical).revision
         body := versionBody (transition.fact config { store with draws }) transition.historical
         position := store.head + 1 }] := if_pos ⟨mode, hkind⟩
  have hfresh := (admitted.versions _ (hrows ▸ List.mem_singleton_self _)).2
  have hevents : (transition.commit config { store with draws }).events = store.events ++
      [⟨store.head + 1, transition.id, transition.fact config { store with draws }⟩] := rfl
  refine h.versioned (congrArg (store.historicalVersions ++ ·) hrows) hevents ?_ hfresh rfl
    (versionBody_revision _ _).symm hprevious ?_ (transition.lookup_resources mode hkind)
  · rw [log.head_eq]
  · intro other hother
    change (transition.resources { store with draws })[other]? = store.resources[other]?
    unfold Transition.resources
    split
    · rw [Table.lookup_erase, if_neg hother.symm]
    · exact Table.lookup_insert_of_ne hother.symm

theorem commit_link (draws : Draws) (hkind : transition.state.kind = .link)
    (hbefore : ∀ resource, store.resources[transition.id]? ≠ some (.bead resource)) :
    VersionInvariant (transition.commit config { store with draws }) := by
  have hnot : ¬ (config.historicalMode = true ∧ transition.state.kind = .bead) := by
    rw [hkind]
    exact fun hmode ↦ nomatch hmode.2
  refine h.unversioned ?_ ⟨_, rfl⟩ fun id resource ↦ ?_
  · change store.historicalVersions ++ transition.versions config { store with draws } = _
    rw [Transition.versions, if_neg hnot, append_nil]
  · change (transition.resources { store with draws })[id]? = _ ↔ _
    by_cases hid : transition.id = id
    · rw [← hid]
      refine ⟨fun hafter ↦ ?_, fun hlive ↦ absurd hlive (hbefore resource)⟩
      unfold Transition.resources at hafter
      split at hafter
      · rw [Table.lookup_erase, if_pos rfl] at hafter
        cases hafter
      · rw [Table.lookup_insert_self] at hafter
        rw [Option.some.inj hafter] at hkind
        cases hkind
    · unfold Transition.resources
      split
      · rw [Table.lookup_erase, if_neg hid]
      · rw [Table.lookup_insert_of_ne hid]

theorem baseline_last {kind : ResourceKind} {baseline : UpdateBaseline}
    (hbaseline : store.updateBaseline config kind id selected = .ok (some baseline))
    (hbead : baseline.before.kind = .bead) :
    lastRevision none (store.versionsOf id) = some baseline.previousRevision := by
  obtain ⟨hversion, ⟨-, hcurrent, hprevious⟩ | ⟨-, -, terminal, resource, context, hterminal, -, -,
    hprevious⟩⟩ := updateBaseline_eq_some hbaseline
  · have hrow := (currentState_eq_some.mp hcurrent).1
    cases hbefore : baseline.before with
    | bead resource =>
      rw [hbefore] at hrow hprevious
      rw [h.lastRevision_live hrow, hprevious]
      rfl
    | link resource =>
      rw [hbefore] at hbead
      cases hbead
  · rw [hversion] at hterminal
    obtain ⟨row, hrow, hbody⟩ := selectedVersion_eq_some hterminal
    have hmem : row ∈ store.historicalVersions := (List.mem_filter.mp (List.mem_of_getLast? hrow)).1
    rw [lastRevision, hrow, Option.elim_some, ← h.bodies row hmem, hbody, hprevious]
    rfl

theorem effect (graph : GraphInvariant config store)
    (log : LogInvariant config store) (mode : config.historicalMode = true)
    {context : RequestContext} {outcome : Outcome}
    (heffect : Effect config context store result outcome) : VersionInvariant result := by
  cases heffect with
  | refused problem draws retainable le =>
    exact h.unversioned rfl ⟨[], (append_nil _).symm⟩ fun _ _ ↦ Iff.rfl
  | putAlias => exact h.unversioned rfl ⟨[], (append_nil _).symm⟩ fun _ _ ↦ Iff.rfl
  | deleteAlias => exact h.unversioned rfl ⟨[], (append_nil _).symm⟩ fun _ _ ↦ Iff.rfl
  | unchanged => exact h
  | created state time draws operation_eq drawn canonical type_reference unreserved not_alias
      endpoints admitted =>
    obtain ⟨hidentity, hresource⟩ := admitted.created rfl
    cases state with
    | bead resource =>
      have hfresh : store.versionsOf resource.id = [] := versionsOf_fresh graph hidentity
      refine h.commit_bead log draws mode rfl admitted ?_
      have hid : (creation (.bead resource) time).id = resource.id := rfl
      have hcreate : (creation (.bead resource) time).verb ≠ .delete := LifecycleVerb.noConfusion
      rw [hid, hfresh, LifecycleFact.previousRevision, Transition.fact_terminal hcreate]
      rfl
    | link resource =>
      refine h.commit_link draws rfl fun found hfound ↦ ?_
      exact hresource (Table.mem_of_lookup hfound)
  | updated kind id edits baseline source candidate state time draws operation_eq from_eq guard_eq
      update type_reference changes state_eq drawn admitted =>
    have hidentity := graph.baseline update.baseline_eq
    obtain ⟨-, ⟨properties, metadata, -, hcandidate⟩, -⟩ :=
      updateCandidate_eq_ok.mp update.candidate_eq
    have hkind : state.kind = baseline.before.kind := by
      rw [state_eq, rematerialized_kind, hcandidate, editedState_kind]
    have hid : state.resource.id = id := by
      rw [state_eq, rematerialized_resource]
      rfl
    cases state with
    | bead resource =>
      refine h.commit_bead log draws mode rfl admitted ?_
      have hid' : (replacement baseline edits.fromRevision (.bead resource) time).id = id := hid
      rw [hid', h.baseline_last update.baseline_eq hkind.symm]
      rfl
    | link resource =>
      refine h.commit_link draws rfl fun found hfound ↦ ?_
      have hrow := graph.kinds _ _ hfound
      change store.identities[resource.id]? = some .bead at hrow
      rw [show resource.id = id from hid, hidentity, ← hkind] at hrow
      cases hrow
  | deleted id before time operation_eq live guard unlinked admitted =>
    obtain ⟨hrow, hidentity, -⟩ := currentState_eq_some.mp live
    have hid := graph.linked.id_eq id before hrow
    cases before with
    | bead resource =>
      refine h.commit_bead log store.draws mode rfl admitted ?_
      have hid' : (deletion (.bead resource) time).id = id := hid
      rw [hid', h.lastRevision_live hrow, LifecycleFact.previousRevision,
        Transition.fact_deleted mode rfl rfl]
      rfl
    | link resource =>
      refine h.commit_link store.draws rfl fun found hfound ↦ ?_
      rw [← hid] at hrow
      cases hfound.symm.trans hrow

theorem step (graph : GraphInvariant config store)
    (log : LogInvariant config store) (mode : config.historicalMode = true)
    (hstep : Step config store result) : VersionInvariant result := by
  cases hstep with
  | same => exact h
  | paged principal source subject selection clock result page rows read =>
    obtain ⟨window, hread⟩ := eventPage_eq_ok read
    obtain ⟨cursors, draws, rfl⟩ := hread.only_cursors
    exact h.unversioned rfl ⟨[], (append_nil _).symm⟩ fun _ _ ↦ Iff.rfl
  | decided principal key captured context middle outcome fresh captures guards effect capacity =>
    exact (h.effect graph log mode effect).unversioned rfl ⟨[], (append_nil _).symm⟩
      fun _ _ ↦ Iff.rfl
  | refusedBatch => exact h.unversioned rfl ⟨[], (append_nil _).symm⟩ fun _ _ ↦ Iff.rfl
  | acceptedBatch principal input clock graph evaluation facts batch =>
    exact absurd batch (not_batchMode mode)

end

end VersionInvariant

theorem versionInvariant_of_reachable (mode : config.historicalMode = true) {owner : Owner}
    (h : owner.Reachable config) : VersionInvariant owner.store := by
  suffices GraphInvariant config owner.store ∧ LogInvariant config owner.store ∧
      VersionInvariant owner.store from this.2.2
  refine h.invariant (P := fun store ↦ GraphInvariant config store ∧ LogInvariant config store ∧
    VersionInvariant store) ⟨graphInvariant_empty, logInvariant_empty, versionInvariant_empty⟩ ?_
  rintro store result ⟨graph, log, hversions⟩ hstep
  obtain ⟨facts, hpublished⟩ := hstep.published
  exact ⟨graph.step hstep, log.published hpublished, hversions.step graph log mode hstep⟩

end Invariant

end Bdp.Retained
