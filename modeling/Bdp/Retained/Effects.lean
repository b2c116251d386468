import Bdp.Retained.Transitions

/-!
# Effects of executed operations

Every singleton operation that ends in a response refuses, finds nothing to change, moves one
alias, or commits one transition. Each case keeps the guards that its source branch has checked, so
the invariants of a store are read off the effect and not off the branches.
-/

namespace Bdp.Retained

open Bdp.Except (bind_eq_ok ok_bind error_bind)

variable {config : StoreConfiguration}

/-- Componentwise order: identifiers are drawn and never put back. -/
structure Draws.Le (before after : Draws) : Prop where
  identity : before.identity ≤ after.identity
  revision : before.revision ≤ after.revision
  event : before.event ≤ after.event
  transaction : before.transaction ≤ after.transaction
  boundary : before.boundary ≤ after.boundary
  cursor : before.cursor ≤ after.cursor

theorem Draws.Le.refl (draws : Draws) : draws.Le draws :=
  ⟨le_rfl, le_rfl, le_rfl, le_rfl, le_rfl, le_rfl⟩

theorem Draws.Le.trans {first second third : Draws} (h : first.Le second) (h' : second.Le third) :
    first.Le third :=
  ⟨h.identity.trans h'.identity, h.revision.trans h'.revision, h.event.trans h'.event,
    h.transaction.trans h'.transaction, h.boundary.trans h'.boundary, h.cursor.trans h'.cursor⟩

/-- The members of a problem document that its details never repeat. -/
def PROBLEM_MEMBERS : List String := ["type", "code", "status", "retry", "result"]

/-- A refusal that can be retained: an error status and a nonempty code. -/
structure Problem.Retainable (problem : Problem) : Prop where
  status_ge : 400 ≤ problem.status
  status_le : problem.status ≤ 599
  code_ne : problem.code ≠ ""
  retry_mem : problem.retry ∈ ["never", "after-state-change", "after-delay"]
  details : ∀ name ∈ PROBLEM_MEMBERS, problem.details.lookup name = none

variable {state before : ResourceState} {source : RetainedBead}
variable {lookup : String → Option ResourceState} {scope : String}

section Problems

theorem validationProblem_retainable (diagnostic : JsonObject) :
    (validationProblem diagnostic).Retainable :=
  ⟨by simp [validationProblem], by simp [validationProblem], by simp [validationProblem],
    by simp [validationProblem], by simp [validationProblem, PROBLEM_MEMBERS]⟩

theorem problem_retainable {code : String} {status : ℕ} {retry : String} (hcode : code ≠ "")
    (hstatus : 400 ≤ status ∧ status ≤ 599)
    (hretry : retry ∈ ["never", "after-state-change", "after-delay"]) :
    (problem code status retry).Retainable :=
  ⟨hstatus.1, hstatus.2, hcode, hretry, by simp [problem]⟩

theorem identityTaken_retainable : identityTaken.Retainable :=
  problem_retainable (by decide) (by decide) (by decide)

theorem aliasPathTaken_retainable : aliasPathTaken.Retainable :=
  problem_retainable (by decide) (by decide) (by decide)

theorem resourceNotFound_retainable : resourceNotFound.Retainable :=
  problem_retainable (by decide) (by decide) (by decide)

theorem revisionMismatch_retainable : revisionMismatch.Retainable :=
  problem_retainable (by decide) (by decide) (by decide)

theorem revisionUnknown_retainable : revisionUnknown.Retainable :=
  problem_retainable (by decide) (by decide) (by decide)

theorem incidentLinksExist_retainable : incidentLinksExist.Retainable :=
  problem_retainable (by decide) (by decide) (by decide)

theorem limitExceeded_retainable : limitExceeded.Retainable :=
  problem_retainable (by decide) (by decide) (by decide)

theorem historicalCapabilityProblem_retainable : historicalCapabilityProblem.Retainable :=
  ⟨by decide, by decide, by decide, by decide, by decide⟩

variable {problem : Problem}

theorem admissionRefusal_retainable {refusal : Option Problem}
    (h : IsAdmissionRefusal refusal) (hproblem : refusal = some problem) :
    problem.Retainable := by
  obtain ⟨hcode, hstatus, hretry, hdetails⟩ := h problem hproblem
  refine ⟨by omega, by omega, by rw [hcode]; decide, by rw [hretry]; decide, fun name hname ↦ ?_⟩
  rw [List.lookup_eq_none_iff]
  intro entry hentry
  have hmem := hdetails (List.mem_map_of_mem hentry)
  simp only [PROBLEM_MEMBERS, List.mem_cons, List.not_mem_nil, or_false] at hname hmem
  rcases hmem with h | h <;> rcases hname with rfl | rfl | rfl | rfl | rfl <;> rw [h] <;> decide

theorem endpointFailure_retainable
    (h : endpointFailure scope lookup state = some problem) : problem.Retainable := by
  cases state with
  | bead resource => simp [endpointFailure] at h
  | link resource =>
    simp only [endpointFailure] at h
    split at h
    · next found hfind =>
      obtain rfl := Option.some.inj h
      obtain ⟨entry, -, hentry⟩ := List.exists_of_findSome?_eq_some hfind
      unfold endpointProblem at hentry
      split at hentry
      · obtain rfl := Option.some.inj hentry
        exact resourceNotFound_retainable
      · simp at hentry
      · obtain rfl := Option.some.inj hentry
        exact validationProblem_retainable _
    · split at h
      · obtain rfl := Option.some.inj h
        exact validationProblem_retainable _
      · simp at h

theorem editedDocument_retainable {document : String} {replacement : Option JsonObject}
    {change : Option ObjectChange} {source : JsonObject}
    (h : editedDocument document replacement change source = .error problem) :
    problem.Retainable := by
  unfold editedDocument at h
  split at h
  · simp at h
  · simp at h
  · split at h
    · simp at h
    · obtain rfl := Except.error.inj h
      exact validationProblem_retainable _

variable {edits : EditFields}

theorem editedDocuments_retainable {properties metadata : JsonObject}
    (h : editedDocuments edits properties metadata = .error problem) :
    problem.Retainable := by
  unfold editedDocuments at h
  cases hproperties : editedDocument "properties" edits.properties edits.propertiesChange
    properties with
  | error first =>
    rw [hproperties, error_bind] at h
    obtain rfl := Except.error.inj h
    exact editedDocument_retainable hproperties
  | ok properties' =>
    rw [hproperties, ok_bind] at h
    cases hmetadata : editedDocument "metadata" edits.metadata edits.metadataChange metadata with
    | error second =>
      rw [hmetadata, error_bind] at h
      obtain rfl := Except.error.inj h
      exact editedDocument_retainable hmetadata
    | ok metadata' => simp [hmetadata] at h

theorem updateCandidate_retainable {store : Store}
    (h : store.updateCandidate config edits before source = .error problem) :
    problem.Retainable := by
  unfold Store.updateCandidate at h
  by_cases hlimits : exceedsEditLimits
      [edits.propertiesChange.getD [], edits.metadataChange.getD []] = false
  · rw [check_of hlimits, ok_bind] at h
    cases hdocuments : editedDocuments edits source.properties source.metadata with
    | error first =>
      rw [hdocuments, error_bind] at h
      obtain rfl := Except.error.inj h
      exact editedDocuments_retainable hdocuments
    | ok documents =>
      rw [hdocuments, ok_bind] at h
      dsimp only at h
      split at h
      · next found hfailure =>
        obtain rfl := Except.error.inj h
        exact endpointFailure_retainable hfailure
      · simp at h
  · rw [check_of_not hlimits, error_bind] at h
    obtain rfl := Except.error.inj h
    exact limitExceeded_retainable

end Problems

variable {candidate : ResourceState}

section States

@[simp]
theorem materializeBead_id (type : Json) (properties metadata : JsonObject)
    (provenance : Option RevisionProvenanceInput) (id revision time : String) :
    (materializeBead type properties metadata provenance id revision time).id = id ∧
      (materializeBead type properties metadata provenance id revision time).revision = revision :=
  ⟨rfl, rfl⟩

theorem resourceState_eq_some {kind : ResourceKind} {resource : RetainedBead}
    {source target : Option EndpointReference}
    (h : resourceState kind resource source target = some state) :
    state.kind = kind ∧ state.resource = resource ∧
      (kind = .link → state.endpoints = source.toList ++ target.toList) := by
  cases kind with
  | bead =>
    obtain rfl := Option.some.inj h
    exact ⟨rfl, rfl, fun h ↦ nomatch h⟩
  | link =>
    cases source with
    | none => simp [resourceState] at h
    | some source =>
      cases target with
      | none => simp [resourceState] at h
      | some target =>
        obtain rfl := Option.some.inj h
        exact ⟨rfl, rfl, fun _ ↦ rfl⟩

@[simp]
theorem editedState_kind (before : ResourceState) (type : Json) (properties metadata : JsonObject)
    (source target : Option EndpointReference) :
    (editedState before type properties metadata source target).kind = before.kind := by
  cases before <;> rfl

@[simp]
theorem editedState_resource (before : ResourceState) (type : Json)
    (properties metadata : JsonObject) (source target : Option EndpointReference) :
    (editedState before type properties metadata source target).resource =
      { before.resource with type, properties, metadata } := by
  cases before <;> rfl

@[simp]
theorem rematerialized_kind (candidate : ResourceState)
    (provenance : Option RevisionProvenanceInput) (id revision time : String) :
    (rematerialized candidate provenance id revision time).kind = candidate.kind := by
  cases candidate <;> rfl

@[simp]
theorem rematerialized_resource (candidate : ResourceState)
    (provenance : Option RevisionProvenanceInput) (id revision time : String) :
    (rematerialized candidate provenance id revision time).resource =
      materializeBead candidate.resource.type candidate.resource.properties
        candidate.resource.metadata provenance id revision time := by
  cases candidate <;> rfl

@[simp]
theorem rematerialized_endpoints (candidate : ResourceState)
    (provenance : Option RevisionProvenanceInput) (id revision time : String) :
    (rematerialized candidate provenance id revision time).endpoints = candidate.endpoints := by
  cases candidate <;> rfl

theorem EndpointsLive.congr {state' : ResourceState} (hkind : state'.kind = state.kind)
    (hendpoints : state'.endpoints = state.endpoints) (h : EndpointsLive scope lookup state) :
    EndpointsLive scope lookup state' := by
  unfold EndpointsLive localEndpoints at h ⊢
  rw [hkind, hendpoints]
  exact h

theorem updateCandidate_eq_ok {store : Store} {edits : EditFields} :
    store.updateCandidate config edits before source = .ok candidate ↔
      exceedsEditLimits [edits.propertiesChange.getD [], edits.metadataChange.getD []] = false ∧
      (∃ properties metadata,
        editedDocuments edits source.properties source.metadata = .ok (properties, metadata) ∧
        candidate = editedState before (edits.type.getD before.resource.type) properties metadata
          edits.source edits.target) ∧
      EndpointsLive config.navigation.scope (store.currentState · none) candidate := by
  unfold Store.updateCandidate
  rw [check_bind_eq_ok, bind_eq_ok]
  refine and_congr_right fun _ ↦ ?_
  rw [← endpointFailure_eq_none]
  constructor
  · rintro ⟨documents, hdocuments, h⟩
    dsimp only at h
    split at h
    · simp at h
    · next hfailure =>
      obtain rfl := Except.ok.inj h
      exact ⟨⟨_, _, hdocuments, rfl⟩, hfailure⟩
  · rintro ⟨⟨properties, metadata, hdocuments, rfl⟩, hfailure⟩
    refine ⟨_, hdocuments, ?_⟩
    dsimp only
    rw [hfailure]

end States

section Effect

/-- What the retained identity of a request says about it: its operation and its guards. -/
structure RequestContext where
  operation : Operation
  fromRevision : Option String
  expectedRevision : Option String

def creation (state : ResourceState) (time : String) : Transition :=
  { verb := .create, state, before := none, time, historical := none }

def deletion (before : ResourceState) (time : String) : Transition :=
  { verb := .delete, state := before, before := some before, time, historical := none }

/-- An update of a baseline; a selected historical source leaves its context. -/
def replacement (baseline : UpdateBaseline) (fromRevision : Option String)
    (state : ResourceState) (time : String) : Transition :=
  { verb := .update baseline.previousRevision, state, before := some baseline.before, time
    historical := fromRevision.map fun fromRevision ↦
      { context := { fromRevision, previousRevision := baseline.previousRevision }
        recovering := baseline.recovering } }

def createdText (state : ResourceState) : Json :=
  .object [("outcome", .string "created"), ("changed", .bool true), ("resource", state.toJson)]

def deletedText (before : ResourceState) : Json :=
  .object [("outcome", .string "deleted"), ("changed", .bool true),
    ("deleted", deletedIdentity before)]

def aliasPutText (existing : Bool) (locator target : String) : Json :=
  .object [("outcome", .string (if existing then "updated" else "created")),
    ("alias", .string locator), ("target", .string target)]

def aliasDeletedText (locator : String) : Json :=
  .object [("outcome", .string "deleted"), ("alias", .string locator)]

variable (config)

/-- The store a new record is committed on: identities and its revision have been drawn. -/
structure DrawnRevision (store : Store) (draws : Draws) (state : ResourceState) : Prop where
  le : store.draws.Le draws
  revision : state.resource.revision = config.uuids.uuid .revision store.draws.revision
  drawn : draws.revision = store.draws.revision + 1

/-- A committed outcome with its text and the position of its event. -/
def committedOutcome (text : Json) (store : Store) : Outcome :=
  { status := 200, text := config.serialized text, position := some (store.head + 1) }

def acceptedOutcome (text : Json) : Outcome :=
  { status := 200, text := config.serialized text, position := none }

/-- An update that has read its baseline and its source, and whose edits are admitted. -/
structure UpdateAdmitted (store : Store) (kind : ResourceKind) (id : String) (edits : EditFields)
    (baseline : UpdateBaseline) (source : RetainedBead) (candidate : ResourceState) : Prop where
  enabled : edits.fromRevision.isSome → config.historicalMode = true
  baseline_eq : store.updateBaseline config kind id edits.fromRevision.isSome = .ok (some baseline)
  guard : ∀ revision ∈ edits.expectedRevision, revision = baseline.previousRevision
  source_eq : store.selectSource config id edits.fromRevision baseline.before =
    .ok (.source source)
  candidate_eq : store.updateCandidate config edits baseline.before source = .ok candidate

/-- What an executed singleton operation does to the store. -/
inductive Effect (context : RequestContext) (store : Store) : Store → Outcome → Prop where
  | refused (problem : Problem) (draws : Draws) (retainable : problem.Retainable)
      (le : store.draws.Le draws) :
      Effect context store { store with draws } (refusal config problem)
  | putAlias (locator target : String)
      (operation_eq : context.operation = .putAlias)
      (contains : config.navigation.contains locator = true)
      (unreserved : config.isReserved locator = false)
      (not_identity : locator ∉ store.identities)
      (target_not_alias : target ∉ store.aliases)
      (target_bead : ∃ resource, store.currentState target (some .bead) = some (.bead resource)) :
      Effect context store { store with aliases := store.aliases.insert locator target }
        (acceptedOutcome config (aliasPutText (store.isAliasLocator locator) locator target))
  | deleteAlias (locator : String)
      (operation_eq : context.operation = .deleteAlias)
      (contains : config.navigation.contains locator = true)
      (live : locator ∈ store.aliases) :
      Effect context store (store.deleteAlias locator)
        (acceptedOutcome config (aliasDeletedText locator))
  | created (state : ResourceState) (time : String) (draws : Draws)
      (operation_eq : context.operation = LifecycleVerb.create.operation state.kind)
      (drawn : DrawnRevision config store draws state)
      (canonical : config.navigation.canonical state.resource.id = true)
      (type_reference : isTypeReference config.httpUri state.resource.type = true)
      (unreserved : config.isReserved state.resource.id = false)
      (not_alias : state.resource.id ∉ store.aliases)
      (endpoints : EndpointsLive config.navigation.scope (store.currentState · none) state)
      (admitted : (creation state time).Admitted config { store with draws }) :
      Effect context store ((creation state time).commit config { store with draws })
        (committedOutcome config (createdText state) store)
  | unchanged (kind : ResourceKind) (id : String) (edits : EditFields) (baseline : UpdateBaseline)
      (source : RetainedBead) (candidate : ResourceState)
      (operation_eq : context.operation = (LifecycleVerb.update "").operation kind)
      (from_eq : edits.fromRevision = context.fromRevision)
      (guard_eq : edits.expectedRevision = context.expectedRevision)
      (update : UpdateAdmitted config store kind id edits baseline source candidate)
      (live : baseline.recovering = false)
      (same : contentChanged candidate baseline.before = false) :
      Effect context store store (acceptedOutcome config (updateResult false baseline.before.toJson
        edits.fromRevision.isSome (baseline.currentVersion.bind VersionBody.historicalUpdate)))
  | updated (kind : ResourceKind) (id : String) (edits : EditFields) (baseline : UpdateBaseline)
      (source : RetainedBead) (candidate state : ResourceState) (time : String) (draws : Draws)
      (operation_eq : context.operation = (LifecycleVerb.update "").operation kind)
      (from_eq : edits.fromRevision = context.fromRevision)
      (guard_eq : edits.expectedRevision = context.expectedRevision)
      (update : UpdateAdmitted config store kind id edits baseline source candidate)
      (type_reference : ∀ type, edits.type = some type → isTypeReference config.httpUri type = true)
      (changes : baseline.recovering = true ∨ contentChanged candidate baseline.before = true)
      (state_eq : state = rematerialized candidate edits.provenance id
        (config.uuids.uuid .revision store.draws.revision) time)
      (drawn : DrawnRevision config store draws state)
      (admitted : (replacement baseline edits.fromRevision state time).Admitted config
        { store with draws }) :
      Effect context store
        ((replacement baseline edits.fromRevision state time).commit config { store with draws })
        (committedOutcome config (updateResult true state.toJson edits.fromRevision.isSome
          ((replacement baseline edits.fromRevision state time).historical.map
            HistoricalSelection.context)) store)
  | deleted (id : String) (before : ResourceState) (time : String)
      (operation_eq : context.operation = LifecycleVerb.delete.operation before.kind)
      (live : store.currentState id (some before.kind) = some before)
      (guard : ∀ revision ∈ context.expectedRevision, revision = before.resource.revision)
      (unlinked : before.kind = .bead → store.liveLinks.any (linkedTo id) = false)
      (admitted : (deletion before time).Admitted config store) :
      Effect context store ((deletion before time).commit config store)
        (committedOutcome config (deletedText before) store)

variable {config} {store result : Store} {outcome : Outcome}
variable {problem : Problem}

theorem Effect.refusal {context : RequestContext}
    (retainable : problem.Retainable) (h : pure (store, refusal config problem) =
      (.ok (result, outcome) : Except Failure (Store × Outcome))) :
    Effect config context store result outcome := by
  obtain ⟨rfl, rfl⟩ := Prod.mk.inj (Except.ok.inj h)
  exact .refused problem store.draws retainable (.refl _)

theorem drawFact_le (store : Store) (fact : LifecycleFact) :
    store.draws.Le (store.drawFact fact).draws := by
  refine ⟨le_rfl, ?_, Nat.le_succ _, Nat.le_succ _, le_rfl, le_rfl⟩
  unfold Store.drawFact
  dsimp only
  split
  · exact Nat.le_succ _
  · exact le_rfl

theorem Effect.oversized {context : RequestContext} {draws : Draws} (le : store.draws.Le draws)
    (fact : LifecycleFact) : Effect config context store
      (Store.drawFact { store with draws } fact) (Retained.refusal config limitExceeded) :=
  .refused limitExceeded (Store.drawFact { store with draws } fact).draws
    limitExceeded_retainable (le.trans (drawFact_le { store with draws } fact))

theorem allocateIdentity_eq_some {taken : String → Bool} {attempts index next : ℕ} {id : String}
    (h : allocateIdentity config taken attempts index = some (id, next)) :
    index < next ∧ id = config.navigation.scope ++ config.uuids.uuid .identity (next - 1) ∧
      taken id = false := by
  induction attempts generalizing index with
  | zero => simp [allocateIdentity] at h
  | succ attempts ih =>
    simp only [allocateIdentity] at h
    split at h
    · obtain ⟨hlt, hid, hfree⟩ := ih h
      exact ⟨by omega, hid, hfree⟩
    · next hfree =>
      obtain ⟨rfl, rfl⟩ := Prod.mk.inj (Option.some.inj h)
      exact ⟨by omega, by simp, by simpa using hfree⟩

theorem creationIdentity_eq_ok {supplied : Option String} {id : String}
    (h : store.creationIdentity config supplied = .ok (id, result)) :
    (∃ next, store.draws.identity ≤ next ∧
      result = { store with draws := { store.draws with identity := next } }) ∧
      ((∀ uri, supplied = some uri → config.navigation.canonical uri = true) →
        config.navigation.canonical id = true) := by
  unfold Store.creationIdentity at h
  split at h
  · next uri =>
    obtain ⟨rfl, rfl⟩ := Prod.mk.inj (Except.ok.inj h)
    exact ⟨⟨_, le_rfl, rfl⟩, fun hcanonical ↦ hcanonical uri rfl⟩
  · split at h
    · next allocated next hallocate =>
      obtain ⟨rfl, rfl⟩ := Prod.mk.inj (Except.ok.inj h)
      obtain ⟨hlt, rfl, -⟩ := allocateIdentity_eq_some hallocate
      exact ⟨⟨_, by omega, rfl⟩, fun _ ↦ config.canonical_allocated _⟩
    · simp at h

variable {kind : ResourceKind}
variable {time : ℕ}

theorem performCreate_effect {fields : CreateFields} {context : RequestContext}
    (hoperation : context.operation = LifecycleVerb.create.operation kind)
    (hid : ∀ uri, fields.id = some uri → config.navigation.canonical uri = true)
    (htype : isTypeReference config.httpUri fields.type = true)
    (h : performCreate config kind fields time store = .ok (result, outcome)) :
    Effect config context store result outcome := by
  unfold performCreate at h
  rw [bind_eq_ok] at h
  obtain ⟨⟨id, drawnStore⟩, hcreation, h⟩ := h
  obtain ⟨⟨next, hnext, rfl⟩, hcanonical⟩ := creationIdentity_eq_ok hcreation
  have hle : store.draws.Le { store.draws with identity := next } :=
    ⟨hnext, le_rfl, le_rfl, le_rfl, le_rfl, le_rfl⟩
  dsimp only at h
  split at h
  · obtain ⟨rfl, rfl⟩ := Prod.mk.inj (Except.ok.inj h)
    exact .refused _ _ identityTaken_retainable hle
  next hfree =>
  split at h
  · obtain ⟨rfl, rfl⟩ := Prod.mk.inj (Except.ok.inj h)
    exact .refused _ _ aliasPathTaken_retainable hle
  next halias =>
  rw [bind_eq_ok] at h
  obtain ⟨instant, -, h⟩ := h
  rw [bind_eq_ok] at h
  obtain ⟨state, hstate, h⟩ := h
  rw [require_eq_ok] at hstate
  obtain ⟨hkind, hresource, -⟩ := resourceState_eq_some hstate
  have hdrawn : DrawnRevision config store
      { store.draws with identity := next, revision := store.draws.revision + 1 } state :=
    ⟨⟨hnext, Nat.le_succ _, le_rfl, le_rfl, le_rfl, le_rfl⟩, by rw [hresource]; rfl, rfl⟩
  split at h
  · next failure hfailure =>
    obtain ⟨rfl, rfl⟩ := Prod.mk.inj (Except.ok.inj h)
    exact .refused _ _ (endpointFailure_retainable hfailure) hdrawn.le
  · next hfailure =>
    obtain ⟨-, ⟨-, rfl, rfl⟩ | ⟨-, hadmitted, rfl, rfl⟩⟩ := (Transition.complete_eq_ok
      (creation state (config.clockFormat.toISOString instant)) (fun _ h ↦ nomatch h)).mp h
    · exact .oversized hdrawn.le _
    · have hcreated := (hadmitted.created rfl).1
      refine .created state _ _ (by rw [hkind]; exact hoperation) hdrawn ?_ ?_ ?_ ?_
        (endpointFailure_eq_none.mp hfailure) hadmitted
      · rw [hresource]
        exact hcanonical hid
      · rw [hresource]
        exact htype
      · rw [hresource]
        simpa using fun hreserved ↦ hfree (Or.inr hreserved)
      · rw [hresource]
        simpa using halias

theorem currentState_eq_some {id : String} {kind : Option ResourceKind} :
    store.currentState id kind = some state ↔
      store.resources[id]? = some state ∧ store.identities[id]? = some state.kind ∧
        (kind = none ∨ kind = some state.kind) := by
  unfold Store.currentState
  cases hresource : store.resources[id]? with
  | none => simp
  | some found =>
    cases hidentity : store.identities[id]? with
    | none => simp
    | some rowKind =>
      simp only [Option.some.injEq]
      constructor
      · intro h
        split at h
        · next hkind =>
          obtain rfl := Option.some.inj h
          exact ⟨rfl, hkind.1.symm, by rw [hkind.1]; exact hkind.2⟩
        · simp at h
      · rintro ⟨rfl, rfl, hkind⟩
        rw [if_pos ⟨rfl, hkind⟩]

theorem performDelete_effect {id : String} {expectedRevision : Option String}
    {context : RequestContext}
    (hoperation : context.operation = LifecycleVerb.delete.operation kind)
    (hguard : context.expectedRevision = expectedRevision)
    (h : performDelete config kind id expectedRevision time store = .ok (result, outcome)) :
    Effect config context store result outcome := by
  unfold performDelete at h
  split at h
  · exact Effect.refusal resourceNotFound_retainable h
  next before hlive =>
  have hkind : kind = before.kind := by
    simpa using (currentState_eq_some.mp hlive).2.2
  subst hkind
  split at h
  · exact Effect.refusal revisionMismatch_retainable h
  next hrevision =>
  split at h
  · exact Effect.refusal incidentLinksExist_retainable h
  next hlinks =>
  rw [bind_eq_ok] at h
  obtain ⟨instant, -, h⟩ := h
  obtain ⟨-, ⟨-, rfl, rfl⟩ | ⟨-, hadmitted, rfl, rfl⟩⟩ := (Transition.complete_eq_ok
    (deletion before (config.clockFormat.toISOString instant)) (fun _ h ↦ nomatch h)).mp h
  · exact .oversized (.refl _) _
  · refine .deleted id before _ hoperation hlive ?_ ?_ hadmitted
    · intro revision hmem
      rw [hguard, Option.mem_def] at hmem
      rw [hmem] at hrevision
      simpa using hrevision
    · intro hbead
      simpa [hbead] using hlinks

/-- The version that a selected historical update reads as the current one. -/
def Store.selectedVersion (config : StoreConfiguration) (store : Store) (id : String)
    (selectedHistorical : Bool) : Option VersionBody :=
  if selectedHistorical then store.historicalVersion config id none else none

variable {baseline : UpdateBaseline}

theorem updateBaseline_eq_some {id : String} {selectedHistorical : Bool}
    (h : store.updateBaseline config kind id selectedHistorical = .ok (some baseline)) :
    baseline.currentVersion = store.selectedVersion config id selectedHistorical ∧
      ((baseline.recovering = false ∧ store.currentState id (some kind) = some baseline.before ∧
          baseline.previousRevision = baseline.before.resource.revision) ∨
        (baseline.recovering = true ∧ store.currentState id (some kind) = none ∧
          ∃ terminal resource context,
            baseline.currentVersion = some (.deleted terminal) ∧
            store.historicalVersion config id (some terminal.previousRevision) =
              some (.live resource context) ∧
            baseline.before = .bead resource ∧ baseline.previousRevision = terminal.revision)) := by
  unfold Store.updateBaseline at h
  dsimp only at h
  split at h
  · next live hlive =>
    obtain rfl := Option.some.inj (Except.ok.inj h)
    exact ⟨rfl, Or.inl ⟨rfl, hlive, rfl⟩⟩
  · simp at h
  · next terminal hlive hterminal =>
    obtain ⟨version, hversion, hbody⟩ := Option.bind_eq_some_iff.mp hterminal
    split at h
    · next resource hresource =>
      obtain rfl := Option.some.inj (Except.ok.inj h)
      obtain ⟨latest, hlatest, hlive'⟩ := Option.bind_eq_some_iff.mp hresource
      refine ⟨rfl, Or.inr ⟨rfl, hlive, terminal, resource, latest.historicalUpdate, ?_, ?_, rfl,
        rfl⟩⟩
      · cases version with
        | live _ _ => simp [VersionBody.terminalVersion] at hbody
        | deleted found =>
          obtain rfl := Option.some.inj hbody
          exact hversion
      · cases latest with
        | live found context =>
          obtain rfl := Option.some.inj hlive'
          exact hlatest
        | deleted _ => simp [VersionBody.resource] at hlive'
    · simp at h

variable {fromRevision : Option String}

theorem selectSource_refused {id : String}
    (h : store.selectSource config id fromRevision before = .ok (.refused problem)) :
    problem.Retainable := by
  unfold Store.selectSource at h
  split at h
  · simp at h
  · split at h
    · rw [bind_eq_ok] at h
      obtain ⟨found, -, h⟩ := h
      cases found with
      | some position => simp at h
      | none =>
        obtain rfl := SourceSelection.refused.inj (Except.ok.inj h)
        exact revisionUnknown_retainable
    · obtain rfl := SourceSelection.refused.inj (Except.ok.inj h)
      exact validationProblem_retainable _
    · simp at h

theorem selectSource_eq_source {id : String} :
    store.selectSource config id fromRevision before = .ok (.source source) ↔
      (fromRevision = none ∧ source = before.resource) ∨
        ∃ revision context, fromRevision = some revision ∧
          store.historicalVersion config id (some revision) = some (.live source context) := by
  unfold Store.selectSource
  cases fromRevision with
  | none => simp [eq_comm]
  | some revision =>
    dsimp only
    cases hversion : store.historicalVersion config id (some revision) with
    | none =>
      constructor
      · intro h
        rw [bind_eq_ok] at h
        obtain ⟨found, -, h⟩ := h
        cases found <;> simp at h
      · simp [hversion]
    | some version => cases version <;> simp [hversion]

variable {edits : EditFields}

theorem performUpdate_admitted {id : String}
    (h : performUpdate config kind id edits time store = .ok (result, outcome)) :
    (∃ problem : Problem, problem.Retainable ∧ result = store ∧ outcome = refusal config problem) ∨
      ∃ baseline source candidate,
        UpdateAdmitted config store kind id edits baseline source candidate ∧
          commitUpdate config id edits baseline candidate time store = .ok (result, outcome) := by
  have refused {problem : Problem} (retainable : problem.Retainable)
      (h : (pure (store, refusal config problem) : Except Failure (Store × Outcome)) =
        .ok (result, outcome)) :
      ∃ problem : Problem, problem.Retainable ∧ result = store ∧
        outcome = refusal config problem := by
    obtain ⟨rfl, rfl⟩ := Prod.mk.inj (Except.ok.inj h)
    exact ⟨problem, retainable, rfl, rfl⟩
  unfold performUpdate at h
  split at h
  · exact Or.inl (refused historicalCapabilityProblem_retainable h)
  next henabled =>
  rw [bind_eq_ok] at h
  obtain ⟨found, hbaseline, h⟩ := h
  cases found with
  | none => exact Or.inl (refused resourceNotFound_retainable h)
  | some baseline =>
  dsimp only at h
  split at h
  · exact Or.inl (refused revisionMismatch_retainable h)
  next hrevision =>
  rw [bind_eq_ok] at h
  obtain ⟨selection, hsource, h⟩ := h
  cases selection with
  | refused problem => exact Or.inl (refused (selectSource_refused hsource) h)
  | source source =>
  dsimp only at h
  split at h
  · next problem hproblem => exact Or.inl (refused (updateCandidate_retainable hproblem) h)
  next candidate hcandidate =>
  refine Or.inr ⟨baseline, source, candidate, ⟨?_, hbaseline, ?_, hsource, hcandidate⟩, h⟩
  · intro hsome
    simpa [hsome] using henabled
  · intro revision hmem
    rw [Option.mem_def] at hmem
    rw [hmem] at hrevision
    simpa using hrevision

theorem UpdateAdmitted.live {id : String}
    (update : UpdateAdmitted config store kind id edits baseline source candidate)
    (hid : state.resource.id = id) (time : String) (draws : Draws) :
    (replacement baseline edits.fromRevision state time).Live { store with draws } := by
  intro previous _ hrecovering
  obtain ⟨hversion, hcase⟩ := updateBaseline_eq_some update.baseline_eq
  obtain ⟨-, hcurrent, -⟩ | ⟨hrecovered, -, terminal, -, -, hterminal, -⟩ := hcase
  · have hrow := (currentState_eq_some.mp hcurrent).1
    simpa [Transition.id, replacement, hid] using Table.mem_of_lookup hrow
  · cases hsome : edits.fromRevision with
    | none => simp [hversion, Store.selectedVersion, hsome] at hterminal
    | some fromRevision =>
      simp [Transition.recovering, replacement, hsome, hrecovered] at hrecovering

theorem performUpdate_effect {id : String} {context : RequestContext}
    (hoperation : context.operation = (LifecycleVerb.update "").operation kind)
    (hfrom : edits.fromRevision = context.fromRevision)
    (hguard : edits.expectedRevision = context.expectedRevision)
    (htype : ∀ type, edits.type = some type → isTypeReference config.httpUri type = true)
    (h : performUpdate config kind id edits time store = .ok (result, outcome)) :
    Effect config context store result outcome := by
  obtain ⟨problem, retainable, rfl, rfl⟩ | ⟨baseline, source, candidate, hupdate, h⟩ :=
    performUpdate_admitted h
  · exact .refused problem result.draws retainable (.refl _)
  unfold commitUpdate at h
  split at h
  · next hsame =>
    obtain ⟨rfl, rfl⟩ := Prod.mk.inj (Except.ok.inj h)
    simp only [Bool.and_eq_true, Bool.not_eq_true'] at hsame
    exact .unchanged kind id edits baseline source candidate hoperation hfrom hguard hupdate
      hsame.1 hsame.2
  next hchanged =>
  rw [bind_eq_ok] at h
  obtain ⟨instant, -, h⟩ := h
  have hdrawn : DrawnRevision config store
      { store.draws with revision := store.draws.revision + 1 }
      (rematerialized candidate edits.provenance id
        (config.uuids.uuid .revision store.draws.revision)
        (config.clockFormat.toISOString instant)) :=
    ⟨⟨le_rfl, Nat.le_succ _, le_rfl, le_rfl, le_rfl, le_rfl⟩, by simp, rfl⟩
  have hid : (rematerialized candidate edits.provenance id
      (config.uuids.uuid .revision store.draws.revision)
      (config.clockFormat.toISOString instant)).resource.id = id := by simp
  have hlive := hupdate.live hid (config.clockFormat.toISOString instant)
    { store.draws with revision := store.draws.revision + 1 }
  obtain ⟨-, ⟨-, rfl, rfl⟩ | ⟨-, hadmitted, rfl, rfl⟩⟩ := (Transition.complete_eq_ok _ hlive).mp h
  · exact .oversized hdrawn.le _
  · refine .updated kind id edits baseline source candidate _ _ _ hoperation hfrom hguard hupdate
      htype ?_ rfl hdrawn hadmitted
    cases hrecovering : baseline.recovering with
    | true => exact Or.inl rfl
    | false =>
      right
      simpa [hrecovering] using hchanged

theorem performAlias_effect {locator : String} {operation : AliasOperation}
    {context : RequestContext} (hoperation : context.operation = operation.operation)
    (h : performAlias config locator operation store = .ok (result, outcome)) :
    Effect config context store result outcome := by
  unfold performAlias at h
  split at h
  · exact Effect.refusal resourceNotFound_retainable h
  next hcontains =>
  have hcontains : config.navigation.contains locator = true := by simpa using hcontains
  cases operation with
  | deleteAlias =>
    dsimp only at h
    split at h
    · exact Effect.refusal resourceNotFound_retainable h
    next hlive =>
    split at h
    · exact Effect.refusal limitExceeded_retainable h
    obtain ⟨rfl, rfl⟩ := Prod.mk.inj (Except.ok.inj h)
    exact .deleteAlias locator hoperation hcontains (by simpa using hlive)
  | putAlias target =>
    dsimp only at h
    split at h
    · exact Effect.refusal identityTaken_retainable h
    next hfree =>
    split at h
    · exact Effect.refusal (validationProblem_retainable _) h
    next htarget =>
    split at h
    · exact Effect.refusal (validationProblem_retainable _) h
    split at h
    · exact Effect.refusal resourceNotFound_retainable h
    next hlive =>
    change (if MAX_TEXT_BYTES < (config.serialized (aliasPutText (store.isAliasLocator locator)
      locator target)).utf8ByteSize then _ else _) = _ at h
    split at h
    · exact Effect.refusal limitExceeded_retainable h
    rw [bind_eq_ok] at h
    obtain ⟨put, hput, h⟩ := h
    obtain ⟨-, rfl⟩ := Store.putAlias_eq_ok.mp hput
    obtain ⟨rfl, rfl⟩ := Prod.mk.inj (Except.ok.inj h)
    simp only [not_or, Bool.not_eq_true] at hfree htarget
    refine .putAlias locator target hoperation hcontains hfree.2
      (Store.isIdentity_eq_false.mp hfree.1) (Store.isAliasLocator_eq_false.mp htarget.2) ?_
    cases hcurrent : store.currentState target (some .bead) with
    | none => simp [hcurrent] at hlive
    | some state =>
      have hkind := (currentState_eq_some.mp hcurrent).2.2
      cases state with
      | bead resource => exact ⟨resource, rfl⟩
      | link resource => simp [ResourceState.kind] at hkind

/-- The context of a request whose guards are those of its edits. -/
def EditFields.context (edits : EditFields) (operation : Operation) : RequestContext :=
  { operation, fromRevision := edits.fromRevision, expectedRevision := edits.expectedRevision }

variable {comparison : ReferenceComparison}

theorem applyCreate_effect {input : PreparedCreate config}
    (h : applyCreate config input time comparison store = .ok (result, outcome)) :
    Effect config (EditFields.empty.context .createBead) store result outcome := by
  unfold applyCreate at h
  split at h
  · next problem hproblem =>
    exact Effect.refusal (admissionRefusal_retainable input.refusal_validation hproblem) h
  · exact performCreate_effect rfl input.id_canonical input.type_reference h

theorem applyUpdate_effect {input : PreparedUpdate config}
    (h : applyUpdate config input time comparison store = .ok (result, outcome)) :
    Effect config (input.edits.context .updateBead) store result outcome := by
  unfold applyUpdate at h
  split at h
  · next problem hproblem =>
    exact Effect.refusal (admissionRefusal_retainable input.refusal_validation hproblem) h
  · rw [bind_eq_ok] at h
    obtain ⟨subject, -, h⟩ := h
    cases subject with
    | none => exact Effect.refusal resourceNotFound_retainable h
    | some id => exact performUpdate_effect rfl rfl rfl input.type_reference h

theorem applyDelete_effect {input : PreparedDelete}
    (h : applyDelete config input time comparison store = .ok (result, outcome)) :
    Effect config ⟨.deleteBead, none, input.expectedRevision⟩ store result outcome := by
  unfold applyDelete at h
  rw [bind_eq_ok] at h
  obtain ⟨subject, -, h⟩ := h
  cases subject with
  | none => exact Effect.refusal resourceNotFound_retainable h
  | some id => exact performDelete_effect rfl rfl h

theorem resolvedEndpoints_eq_some {resolved : EditFields}
    (h : resolvedEndpoints comparison edits = some resolved) :
    ∃ source target, resolved = { edits with source, target } := by
  unfold resolvedEndpoints at h
  simp only [Option.bind_eq_bind, Option.bind_eq_some_iff] at h
  obtain ⟨source, -, target, -, h⟩ := h
  exact ⟨source, target, (Option.some.inj h).symm⟩

theorem applyLink_effect {input : PreparedLink config}
    (h : applyLink config input time comparison store = .ok (result, outcome)) :
    Effect config (input.edits.context input.operation.operation) store result outcome := by
  unfold applyLink at h
  split at h
  · next problem hproblem =>
    exact Effect.refusal (admissionRefusal_retainable input.refusal_validation hproblem) h
  next hrefusal =>
  split at h
  · exact Effect.refusal resourceNotFound_retainable h
  next edits hedits =>
  obtain ⟨source, target, rfl⟩ := resolvedEndpoints_eq_some hedits
  split at h
  · next hoperation =>
    rw [hoperation]
    obtain ⟨htype, -⟩ := input.create_complete hrefusal hoperation
    obtain ⟨type, htype⟩ := Option.isSome_iff_exists.mp htype
    refine performCreate_effect rfl input.id_canonical ?_ h
    simpa [htype] using input.type_reference type htype
  · next hoperation =>
    rw [hoperation]
    refine performUpdate_effect ?_ ?_ ?_ ?_ h
    · rfl
    · rfl
    · rfl
    · exact input.type_reference
  · next hoperation =>
    rw [hoperation]
    exact performDelete_effect rfl rfl h

theorem applyAlias_effect {input : PreparedAlias}
    (h : applyAlias config input comparison store = .ok (result, outcome)) :
    Effect config (EditFields.empty.context input.operation.operation) store result outcome :=
  performAlias_effect rfl h

end Effect

end Bdp.Retained
