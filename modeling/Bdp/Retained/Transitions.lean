import Bdp.Retained.Publication
import Bdp.Retained.Singleton

/-!
# Committed transitions

What one committed transition writes, as a function of the store, and the lemma that says so of the
statements that write it. Every other table and counter stays as it was.
-/

namespace Bdp.Retained

open Bdp.Except (bind_eq_ok pure_eq_ok_iff)

variable {config : StoreConfiguration}

namespace Store

variable {store result : Store}
variable {id : String}

@[simp]
theorem isIdentity_iff : store.isIdentity id = true ↔ id ∈ store.identities := Iff.rfl

@[simp]
theorem isIdentity_eq_false : store.isIdentity id = false ↔ id ∉ store.identities := by
  rw [← isIdentity_iff, Bool.not_eq_true]

variable {uri : String}

@[simp]
theorem isAliasLocator_iff : store.isAliasLocator uri = true ↔ uri ∈ store.aliases := Iff.rfl

@[simp]
theorem isAliasLocator_eq_false : store.isAliasLocator uri = false ↔ uri ∉ store.aliases := by
  rw [← isAliasLocator_iff, Bool.not_eq_true]

theorem insertIdentity_eq_ok {kind : ResourceKind} : store.insertIdentity id kind = .ok result ↔
      id ∉ store.identities ∧
        result = { store with identities := store.identities.insert id kind } := by
  rw [insertIdentity, check_bind_eq_ok, pure_eq_ok_iff]

variable {state : ResourceState}

theorem insertResource_eq_ok : store.insertResource id state = .ok result ↔
      (id ∉ store.resources ∧ id ∈ store.identities) ∧
        result = { store with resources := store.resources.insert id state } := by
  rw [insertResource, check_bind_eq_ok, pure_eq_ok_iff]

theorem putResource_eq_ok : store.putResource id state = .ok result ↔ id ∈ store.identities ∧
        result = { store with resources := store.resources.insert id state } := by
  rw [putResource, check_bind_eq_ok, pure_eq_ok_iff]

theorem putAlias_eq_ok {locator target : String} : store.putAlias locator target = .ok result ↔
      target ∈ store.identities ∧
        result = { store with aliases := store.aliases.insert locator target } := by
  rw [putAlias, check_bind_eq_ok, pure_eq_ok_iff]

theorem insertEvent_eq_ok {row : EventRow} : store.insertEvent row = .ok result ↔
      (row.position ∉ store.events.map EventRow.position ∧ row.subject ∈ store.identities) ∧
        result = { store with events := store.events ++ [row] } := by
  rw [insertEvent, check_bind_eq_ok, pure_eq_ok_iff]

/-- The constraints of the version table on a new row. -/
def VersionAdmitted (store : Store) (row : VersionRow) : Prop :=
  row.id ∈ store.identities ∧ row.position ∈ store.events.map EventRow.position ∧
    row.position ∉ store.historicalVersions.map VersionRow.position ∧
    (row.id, row.revision) ∉ store.historicalVersions.map fun old ↦ (old.id, old.revision)

theorem insertVersion_eq_ok {row : VersionRow} : store.insertVersion row = .ok result ↔
      store.VersionAdmitted row ∧
        result = { store with historicalVersions := store.historicalVersions ++ [row] } := by
  rw [insertVersion, check_bind_eq_ok, pure_eq_ok_iff]
  rfl

variable {position : ℕ}

theorem insertBoundary_eq_ok : store.insertBoundary config position = .ok result ↔
      (position ∉ store.boundaries.map Prod.fst ∧
        config.uuids.uuid .boundary store.draws.boundary ∉ store.boundaries.map Prod.snd) ∧
      result = { store with
        boundaries := store.boundaries ++
          [(position, config.uuids.uuid .boundary store.draws.boundary)]
        draws := { store.draws with boundary := store.draws.boundary + 1 } } := by
  rw [insertBoundary, check_bind_eq_ok, pure_eq_ok_iff]

theorem insertIncidence_eq_ok {bead : String} : store.insertIncidence position bead = .ok result ↔
      (position ∈ store.events.map EventRow.position ∧ bead ∈ store.identities ∧
        (position, bead) ∉ store.incidence) ∧
      result = { store with incidence := store.incidence ++ [(position, bead)] } := by
  rw [insertIncidence, check_bind_eq_ok, pure_eq_ok_iff]

theorem insertDecisionFact_eq_ok {decision : ℕ} :
    store.insertDecisionFact decision position = .ok result ↔
      (decision ∈ store.outcomes.map OutcomeRow.decision ∧
        position ∈ store.events.map EventRow.position ∧
        position ∉ store.decisionFacts.map Prod.snd) ∧
      result = { store with decisionFacts := store.decisionFacts ++ [(decision, position)] } := by
  rw [insertDecisionFact, check_bind_eq_ok, pure_eq_ok_iff]

/-- The constraints of the outcome table on a new row. -/
def OutcomeAdmitted (store : Store) (row : OutcomeRow) : Prop :=
  row.decision ∉ store.outcomes.map OutcomeRow.decision ∧
    (store.previousOutcome row.principal row.key).isNone ∧
    ∀ position ∈ row.eventPosition,
      position ∈ store.events.map EventRow.position ∧
        some position ∉ store.outcomes.map OutcomeRow.eventPosition

theorem insertOutcome_eq_ok {row : OutcomeRow} : store.insertOutcome row = .ok result ↔
      store.OutcomeAdmitted row ∧ result = { store with outcomes := store.outcomes ++ [row] } := by
  rw [insertOutcome, check_bind_eq_ok, pure_eq_ok_iff]
  rfl

theorem recordIncidence_eq_ok {beads : List String} :
    store.recordIncidence position beads = .ok result ↔
      ((beads ≠ [] → position ∈ store.events.map EventRow.position) ∧
        (∀ bead ∈ beads, bead ∈ store.identities ∧ (position, bead) ∉ store.incidence) ∧
        beads.Nodup) ∧
      result = { store with
        incidence := store.incidence ++ beads.map fun bead ↦ (position, bead) } := by
  induction beads generalizing store with
  | nil => simp [recordIncidence, eq_comm]
  | cons bead beads ih =>
    have hstep : store.recordIncidence position (bead :: beads) =
        (store.insertIncidence position bead >>= fun store ↦
          store.recordIncidence position beads) := rfl
    rw [hstep, bind_eq_ok]
    simp only [insertIncidence_eq_ok, ih]
    constructor
    · rintro ⟨_, ⟨⟨hposition, hbead, hnew⟩, rfl⟩, ⟨-, hrest, hnodup⟩, rfl⟩
      refine ⟨⟨fun _ ↦ hposition, ?_, ?_⟩, by simp⟩
      · intro other hother
        rcases List.mem_cons.mp hother with rfl | hother
        · exact ⟨hbead, hnew⟩
        · have h := hrest other hother
          simp only [List.mem_append, not_or] at h
          exact ⟨h.1, h.2.1⟩
      · refine List.nodup_cons.mpr ⟨fun hmem ↦ ?_, hnodup⟩
        have h := (hrest bead hmem).2
        simp at h
    · rintro ⟨⟨hposition, hbeads, hnodup⟩, rfl⟩
      obtain ⟨hfresh, hnodup⟩ := List.nodup_cons.mp hnodup
      have hbead := hbeads bead List.mem_cons_self
      refine ⟨_, ⟨⟨hposition (by simp), hbead⟩, rfl⟩, ⟨fun _ ↦ hposition (by simp), ?_, hnodup⟩,
        by simp⟩
      intro other hother
      have h := hbeads other (List.mem_cons_of_mem _ hother)
      refine ⟨h.1, ?_⟩
      simp only [List.mem_append, not_or]
      refine ⟨h.2, ?_⟩
      simp only [List.mem_singleton, Prod.mk.injEq, true_and]
      rintro rfl
      exact hfresh hother

end Store

section Transition

/-- One lifecycle transition with the state before it and the context of a historical update. -/
structure Transition where
  verb : LifecycleVerb
  state : ResourceState
  before : Option ResourceState
  time : String
  historical : Option HistoricalSelection

namespace Transition

def id (transition : Transition) : String := transition.state.resource.id

def recovering (transition : Transition) : Bool :=
  transition.historical.any HistoricalSelection.recovering

variable (config)

def fact (transition : Transition) (store : Store) : LifecycleFact :=
  transitionFact config transition.verb transition.state transition.time store

def beads (transition : Transition) : List String :=
  incidentBeads config.navigation.scope
    (transitionStates transition.verb transition.before transition.state)

/-- The version row of a Bead transition in a historical store. -/
def versions (transition : Transition) (store : Store) : List VersionRow :=
  if config.historicalMode ∧ transition.state.kind = .bead then
    [{ id := transition.id
       revision := (versionBody (transition.fact config store) transition.historical).revision
       body := versionBody (transition.fact config store) transition.historical
       position := store.head + 1 }]
  else []

def identities (transition : Transition) (store : Store) : Table ResourceKind :=
  if transition.verb = .create then
    store.identities.insert transition.id transition.state.kind
  else store.identities

def resources (transition : Transition) (store : Store) : Table ResourceState :=
  if transition.verb = .delete then store.resources.erase transition.id
  else store.resources.insert transition.id transition.state

/-- The store after a committed transition. -/
def commit (transition : Transition) (store : Store) : Store :=
  { store with
    identities := transition.identities store
    resources := transition.resources store
    events := store.events ++
      [{ position := store.head + 1, subject := transition.id, fact := transition.fact config store }]
    historicalVersions := store.historicalVersions ++ transition.versions config store
    incidence := store.incidence ++
      (transition.beads config).map fun bead ↦ (store.head + 1, bead)
    boundaries := store.boundaries ++
      [(store.head + 1, config.uuids.uuid .boundary store.draws.boundary)]
    draws := { (store.drawFact (transition.fact config store)).draws with
      boundary := store.draws.boundary + 1 } }

/-- What the constraints of the tables ask of a transition. -/
structure Admitted (transition : Transition) (store : Store) : Prop where
  created : transition.verb = .create →
    transition.id ∉ store.identities ∧ transition.id ∉ store.resources
  recovered : ∀ previous, transition.verb = .update previous → transition.recovering = true →
    transition.id ∉ store.resources
  identity : transition.id ∈ transition.identities store
  position : store.head + 1 ∉ store.events.map EventRow.position
  versions : ∀ row ∈ transition.versions config store,
    row.position ∉ store.historicalVersions.map VersionRow.position ∧
      (row.id, row.revision) ∉ store.historicalVersions.map fun old ↦ (old.id, old.revision)
  incidence : ∀ bead ∈ transition.beads config,
    bead ∈ transition.identities store ∧ (store.head + 1, bead) ∉ store.incidence
  boundary : store.head + 1 ∉ store.boundaries.map Prod.fst ∧
    config.uuids.uuid .boundary store.draws.boundary ∉ store.boundaries.map Prod.snd

/-- Whether the response or the fact is too large. -/
def Oversized (transition : Transition) (text : Json) (store : Store) : Prop :=
  MAX_TEXT_BYTES < (config.serialized text).utf8ByteSize ∨
    MAX_FACT_BYTES < (config.serialized (transition.fact config store).toJson).utf8ByteSize

instance (transition : Transition) (text : Json) (store : Store) :
    Decidable (transition.Oversized config text store) := by
  unfold Oversized
  infer_instance

variable {config} {transition : Transition} {store result : Store}

/-- An ordinary update replaces a live row. -/
def Live (transition : Transition) (store : Store) : Prop :=
  ∀ previous, transition.verb = .update previous → transition.recovering = false →
    transition.id ∈ store.resources

theorem stageResource_eq_ok (transition : Transition) (store result : Store)
    (hlive : transition.Live store) :
    store.stageResource transition.verb transition.state transition.recovering = .ok result ↔
      ((transition.verb = .create →
          transition.id ∉ store.identities ∧ transition.id ∉ store.resources) ∧
        (∀ previous, transition.verb = .update previous → transition.recovering = true →
          transition.id ∉ store.resources ∧ transition.id ∈ store.identities)) ∧
      result = { store with
        identities := transition.identities store
        resources := transition.resources store } := by
  unfold Live at hlive
  obtain ⟨verb, state, before, time, historical⟩ := transition
  simp only [identities, resources, id] at hlive ⊢
  cases verb with
  | create =>
    rw [Store.stageResource, bind_eq_ok]
    simp only [Store.insertIdentity_eq_ok, Store.insertResource_eq_ok]
    constructor
    · rintro ⟨_, ⟨hid, rfl⟩, ⟨hresource, -⟩, rfl⟩
      exact ⟨⟨fun _ ↦ ⟨hid, hresource⟩, fun _ h ↦ nomatch h⟩, by simp⟩
    · rintro ⟨⟨hcreated, -⟩, rfl⟩
      obtain ⟨hid, hresource⟩ := hcreated trivial
      exact ⟨_, ⟨hid, rfl⟩, ⟨hresource, by simp⟩, by simp⟩
  | update previous =>
    cases hrecovering : Transition.recovering ⟨.update previous, state, before, time, historical⟩ with
    | true =>
      rw [Store.stageResource, if_pos rfl, Store.insertResource_eq_ok]
      simp
    | false =>
      have hmem := hlive previous rfl hrecovering
      simp only [Store.stageResource, Bool.false_eq_true, if_false, pure_eq_ok_iff,
        Store.updateResource, if_pos hmem]
      simp
  | delete =>
    simp only [Store.stageResource, pure_eq_ok_iff, Store.deleteResource]
    simp

theorem recordVersion_eq_ok {position : ℕ} {fact : LifecycleFact}
    {historical : Option HistoricalSelection} :
    store.recordVersion config position fact historical = .ok result ↔
      (config.historicalMode ∧ fact.state.kind = .bead → store.VersionAdmitted
        { id := fact.state.resource.id, revision := (versionBody fact historical).revision
          body := versionBody fact historical, position }) ∧
      result = { store with historicalVersions := store.historicalVersions ++
        if config.historicalMode ∧ fact.state.kind = .bead then
          [{ id := fact.state.resource.id, revision := (versionBody fact historical).revision
             body := versionBody fact historical, position }] else [] } := by
  unfold Store.recordVersion
  split
  · next h => simp [Store.insertVersion_eq_ok, h]
  · next h =>
    rw [pure_eq_ok_iff]
    simp [h]

theorem complete_eq_ok (transition : Transition) (hlive : transition.Live store) {text : Json}
    {outcome : Outcome} :
    complete config transition.verb transition.state transition.before transition.time text
        transition.historical store = .ok (result, outcome) ↔
      store.head + 1 ≤ MAX_SAFE_INTEGER ∧
      ((transition.Oversized config text store ∧
          result = store.drawFact (transition.fact config store) ∧
          outcome = refusal config limitExceeded) ∨
        (¬ transition.Oversized config text store ∧ transition.Admitted config store ∧
          result = transition.commit config store ∧
          outcome = { status := 200, text := config.serialized text
                      position := some (store.head + 1) })) := by
  unfold complete
  rw [check_bind_eq_ok]
  refine and_congr_right fun _ ↦ ?_
  dsimp only
  split
  · next hsize =>
    have hsize : transition.Oversized config text store := hsize
    rw [pure_eq_ok_iff, Prod.mk.injEq]
    simp [hsize, fact]
  · next hsize =>
    have hsize : ¬ transition.Oversized config text store := hsize
    have hstage (staged : Store) := stageResource_eq_ok transition
      (store.drawFact (transition.fact config store)) staged hlive
    unfold recovering at hstage
    unfold fact at hstage
    simp only [bind_eq_ok, hstage, Store.insertEvent_eq_ok, recordVersion_eq_ok,
      Store.recordIncidence_eq_ok, Store.insertBoundary_eq_ok, pure_eq_ok_iff,
      Prod.mk.injEq, hsize, false_and, false_or, not_false_eq_true, true_and]
    constructor
    · rintro ⟨_, ⟨⟨hcreated, hupdated⟩, rfl⟩, _, ⟨⟨hposition, hsubject⟩, rfl⟩, _,
        ⟨hversion, rfl⟩, _, ⟨⟨-, hbeads, -⟩, rfl⟩, _, ⟨hboundary, rfl⟩, rfl, rfl⟩
      refine ⟨?_, rfl, rfl⟩
      refine ⟨hcreated, fun previous hverb h ↦ (hupdated previous hverb h).1, hsubject, hposition,
        ?_, hbeads, hboundary⟩
      intro row hrow
      unfold versions at hrow
      split at hrow
      · next hhistorical =>
        obtain rfl := List.mem_singleton.mp hrow
        exact (hversion hhistorical).2.2
      · simp at hrow
    · rintro ⟨hadmitted, rfl, rfl⟩
      refine ⟨_, ⟨⟨hadmitted.created, fun previous hverb h ↦
        ⟨hadmitted.recovered previous hverb h, ?_⟩⟩, rfl⟩, _,
        ⟨⟨hadmitted.position, hadmitted.identity⟩, rfl⟩, _, ⟨fun hhistorical ↦ ?_, rfl⟩, _,
        ⟨⟨fun _ ↦ by simp, hadmitted.incidence, incidentBeads_nodup _ _⟩, rfl⟩, _,
        ⟨hadmitted.boundary, rfl⟩, ?_, rfl⟩
      · have h := hadmitted.identity
        rwa [identities, hverb, if_neg (by simp)] at h
      · have hmode : config.historicalMode = true ∧ transition.state.kind = .bead := hhistorical
        refine ⟨hadmitted.identity, by simp, hadmitted.versions _ ?_⟩
        rw [versions, if_pos hmode]
        exact List.mem_singleton.mpr rfl
      · rfl

end Transition

end Transition

end Bdp.Retained
