import Bdp.Retained.BatchCommit
import Bdp.Retained.Owner

/-!
# Steps of a retained store

Every request leaves the store as it is, saves cursors, or retains one decision: the effect of a
singleton operation, a refused batch, or an accepted batch with all its facts. The runs of a store
are sequences of these steps, and an invariant of the steps holds in every reachable store.
-/

namespace Bdp.Retained

open Bdp.Except (bind_eq_ok)

variable {config : StoreConfiguration} {store result : Store}
variable {operation : Operation} {key : String}

section Decision

/-- The reference slots that requests of an operation capture. -/
def SlotsOf (operation : Operation) (slots : Slots EndpointReference) : Prop :=
  match operation with
  | .updateBead | .deleteBead => ∃ bead, slots = [(.bead, .floating bead)]
  | .createLink | .updateLink => ∃ source target, slots = endpointSlots source target
  | _ => slots = []

/-- What admission establishes about a captured comparison and the request it belongs to. -/
structure Captures (captured : CapturedComparison) (context : RequestContext) : Prop where
  operation_eq : captured.operation = context.operation
  input_nodup : (captured.input.map Prod.fst).Nodup
  slots : SlotsOf context.operation captured.slots
  ordinary : context.operation ≠ .batch

/-- An accepted Bead update names the guards of its context in its normalized input. -/
def GuardsCaptured (captured : CapturedComparison) (context : RequestContext) (status : ℕ) : Prop :=
  context.operation = .updateBead → status = 200 →
    captured.input.lookup "fromRevision" = context.fromRevision.map .string ∧
      captured.input.lookup "expectedRevision" = context.expectedRevision.map .string

/-- The comparison of a fresh request against the current alias table. -/
def Store.freshComparison (config : StoreConfiguration) (store : Store)
    (captured : CapturedComparison) : ReferenceComparison :=
  compareCapturedReferences config.codec captured (store.aliasLookup config) none []

/-- The outcome row of a singleton decision. -/
def decisionRow (config : StoreConfiguration) (store : Store) (principal key : String)
    (operation : Operation) (captured : CapturedComparison) (outcome : Outcome) : OutcomeRow :=
  { decision := store.decisions + 1, principal, key, operation
    identity := (store.freshComparison config captured).identity
    witnesses := (store.freshComparison config captured).originalWitnesses
    status := outcome.status
    body := outcome.text
    eventPosition := outcome.position }

/-- The facts that a batch store lists with a singleton decision. -/
def decisionPositions (config : StoreConfiguration) (outcome : Outcome) : List ℕ :=
  if config.batchMode then outcome.position.toList else []

/-- An operation changes neither the decisions nor the cursors. -/
structure SameDecisions (store result : Store) : Prop where
  outcomes : result.outcomes = store.outcomes
  decisionFacts : result.decisionFacts = store.decisionFacts
  decisions : result.decisions = store.decisions
  cursors : result.cursors = store.cursors

variable {outcome : Outcome}

theorem Effect.sameDecisions {context : RequestContext}
    (h : Effect config context store result outcome) : SameDecisions store result := by
  cases h <;> exact ⟨rfl, rfl, rfl, rfl⟩

theorem recordDecisionFact_eq_ok {decision : ℕ} {position : Option ℕ}
    (h : store.recordDecisionFact config decision position = .ok result) :
    result = { store with decisionFacts := store.decisionFacts ++
      ((if config.batchMode then position.toList else []).map fun position ↦
        (decision, position)) } := by
  unfold Store.recordDecisionFact at h
  split at h
  · next position =>
    split at h
    · next hmode =>
      obtain ⟨-, rfl⟩ := Store.insertDecisionFact_eq_ok.mp h
      simp [hmode]
    · next hmode =>
      obtain rfl := Except.ok.inj h
      simp [hmode]
  · obtain rfl := Except.ok.inj h
    simp

theorem recordDecision_eq_ok {principal : String} {comparison : ReferenceComparison}
    (h : recordDecision config principal key operation comparison outcome store = .ok result) :
    store.decisions + 1 ≤ MAX_SAFE_INTEGER ∧ result = store.recorded
        { decision := store.decisions + 1, principal, key, operation
          identity := comparison.identity, witnesses := comparison.originalWitnesses
          status := outcome.status, body := outcome.text, eventPosition := outcome.position }
        (decisionPositions config outcome) := by
  unfold recordDecision at h
  rw [check_bind_eq_ok, bind_eq_ok] at h
  obtain ⟨hdecision, decided, hdecided, h⟩ := h
  obtain ⟨-, rfl⟩ := Store.insertOutcome_eq_ok.mp hdecided
  rw [bind_eq_ok] at h
  obtain ⟨listed, hlisted, h⟩ := h
  obtain rfl := recordDecisionFact_eq_ok hlisted
  obtain rfl := Except.ok.inj h
  exact ⟨hdecision, rfl⟩

end Decision

/-- An accepted batch: its staged graph, its final rows and the facts of its effects. -/
structure AcceptedBatch (config : StoreConfiguration) (store : Store) (input : PreparedBatch config)
    (clock : ℕ → ℕ) (graph : WorkingGraph) (evaluation : BatchEvaluation)
    (facts : List (BatchEffect × LifecycleFact)) : Prop where
  members : input.members.length ≤ BATCH_LIMITS.maximumOperations
  staged : stageMembers input (compareBatch input (store.aliasLookup config) none)
    store.batchBaseline store.draws.identity = .ok graph
  finished : finishBatch config store.batchBaseline graph
    (config.clockFormat.toISOString (clock 0)) store.draws = .ok evaluation
  facts_eq : batchFacts config (evaluation.transaction.getD "") clock evaluation.draws
    evaluation.effects = .ok facts

/-- What one served request does to the store. -/
inductive Step (config : StoreConfiguration) (store : Store) : Store → Prop where
  /-- A replay, a failure, or an unsupported batch. -/
  | same : Step config store store
  | paged (principal source subject : String) (selection : EventSelection) (clock : ℕ → ℕ)
      (result : Store) (page : EventPage) (rows : List EventRow)
      (read : store.eventPage config principal source subject selection clock =
        .ok (result, page, rows)) : Step config store result
  | decided (principal key : String) (captured : CapturedComparison) (context : RequestContext)
      (middle : Store) (outcome : Outcome)
      (fresh : store.previousOutcome principal key = none)
      (captures : Captures captured context)
      (guards : GuardsCaptured captured context outcome.status)
      (effect : Effect config context store middle outcome)
      (capacity : store.decisions + 1 ≤ MAX_SAFE_INTEGER) :
      Step config store (middle.recorded
        (decisionRow config store principal key context.operation captured outcome)
        (decisionPositions config outcome))
  | refusedBatch (principal : String) (input : PreparedBatch config) (problem : Problem)
      (mode : config.batchMode = true) (version : input.capabilityVersion = "1")
      (fresh : store.previousOutcome principal input.key = none)
      (retainable : problem.Retainable)
      (capacity : store.decisions + 1 ≤ MAX_SAFE_INTEGER) :
      Step config store (store.recorded (batchRow config store principal input
        (compareBatch input (store.aliasLookup config) none) problem.status
        (config.serialized problem.toJson) []) [])
  | acceptedBatch (principal : String) (input : PreparedBatch config) (clock : ℕ → ℕ)
      (graph : WorkingGraph) (evaluation : BatchEvaluation)
      (facts : List (BatchEffect × LifecycleFact))
      (mode : config.batchMode = true) (version : input.capabilityVersion = "1")
      (fresh : store.previousOutcome principal input.key = none)
      (accepted : AcceptedBatch config store input clock graph evaluation facts)
      (capacity : store.decisions + 1 ≤ MAX_SAFE_INTEGER) :
      Step config store ((batchWritten config store evaluation facts).recorded
        (batchRow config store principal input
          (compareBatch input (store.aliasLookup config) none) evaluation.status evaluation.text
          (store.nextPositions facts.length)) (store.nextPositions facts.length))

section Refusals

/-- A batch is interrupted by a refusal that can be retained, or by an internal failure. -/
def Interruption.Retainable : Interruption → Prop
  | .refused problem => problem.Retainable
  | .failed _ => True

variable {baseline : BatchBaseline} {graph : WorkingGraph} {member : BatchMember config}
  {comparison : ReferenceComparison}

theorem temporarilyUnavailable_retainable : temporarilyUnavailable.Retainable :=
  problem_retainable (by decide) (by decide) (by decide)

theorem memberReference_errors {field : HandleField} :
    ErrorsIn Interruption.Retainable (memberReference graph member comparison field) := by
  unfold memberReference
  split
  · split
    · exact errorsIn_ok _
    · exact errorsIn_error trivial
  · split <;> exact errorsIn_ok _

theorem admitEndpoints_errors {state : ResourceState} :
    ErrorsIn Interruption.Retainable (admitEndpoints config graph state) := by
  unfold admitEndpoints
  split
  · next h => exact errorsIn_error (endpointFailure_retainable h)
  · exact errorsIn_ok _

theorem stageCreate_errors :
    ErrorsIn Interruption.Retainable (stageCreate baseline graph member comparison) := by
  have hidentity : ErrorsIn Interruption.Retainable (createdIdentity baseline graph member) := by
    refine errorsIn_bind ?_ fun candidate _ ↦ ?_
    · unfold candidateIdentity
      split
      · exact errorsIn_ok _
      · exact errorsIn_require temporarilyUnavailable_retainable
    · exact errorsIn_bind (errorsIn_check identityTaken_retainable) fun _ _ ↦
        errorsIn_bind (errorsIn_check aliasPathTaken_retainable) fun _ _ ↦ errorsIn_ok _
  have hstate (id : String) :
      ErrorsIn Interruption.Retainable (createdState graph member comparison id) := by
    unfold createdState
    dsimp only
    split
    · exact errorsIn_ok _
    · refine errorsIn_bind memberReference_errors fun _ _ ↦
        errorsIn_bind memberReference_errors fun _ _ ↦ ?_
      split
      · exact errorsIn_ok _
      · exact errorsIn_error resourceNotFound_retainable
  exact errorsIn_bind hidentity fun _ _ ↦ errorsIn_bind (hstate _) fun _ _ ↦
    errorsIn_bind admitEndpoints_errors fun _ _ ↦ errorsIn_ok _

theorem stagedSubject_errors :
    ErrorsIn Interruption.Retainable (stagedSubject baseline graph member comparison) := by
  refine errorsIn_bind memberReference_errors fun _ _ ↦ ?_
  split
  · exact errorsIn_bind (errorsIn_require resourceNotFound_retainable) fun _ _ ↦
      errorsIn_bind (errorsIn_check resourceNotFound_retainable) fun _ _ ↦
        errorsIn_bind (errorsIn_check revisionMismatch_retainable) fun _ _ ↦ errorsIn_ok _
  · exact errorsIn_error resourceNotFound_retainable

theorem updatedState_errors {before : ResourceState} :
    ErrorsIn Interruption.Retainable (updatedState graph member comparison before) := by
  refine errorsIn_bind (errorsIn_check limitExceeded_retainable) fun _ _ ↦
    errorsIn_bind ?_ fun documents _ ↦ ?_
  · intro interruption h
    cases hdocuments : editedDocuments member.invocation.edits before.resource.properties
        before.resource.metadata with
    | error problem =>
      rw [hdocuments] at h
      obtain rfl := Except.error.inj h
      exact editedDocuments_retainable hdocuments
    | ok documents => simp [hdocuments, Except.mapError] at h
  · dsimp only
    split
    · exact errorsIn_ok _
    · have hendpoint (field : HandleField) (current : EndpointReference) : ErrorsIn
          Interruption.Retainable (editedEndpoint graph member comparison field current) := by
        unfold editedEndpoint
        split
        · exact memberReference_errors
        · exact errorsIn_ok _
      refine errorsIn_bind (hendpoint _ _) fun _ _ ↦ errorsIn_bind (hendpoint _ _) fun _ _ ↦ ?_
      split
      · exact errorsIn_ok _
      · exact errorsIn_error resourceNotFound_retainable

theorem evaluateMember_errors (entry : BatchMember config × ReferenceComparison) :
    ErrorsIn Interruption.Retainable (evaluateMember baseline graph entry) := by
  unfold evaluateMember
  split
  · next problem hrefusal =>
    refine errorsIn_error ?_
    cases hinvocation : entry.1.invocation with
    | create input =>
      rw [hinvocation] at hrefusal
      exact admissionRefusal_retainable input.refusal_validation hrefusal
    | update input =>
      rw [hinvocation] at hrefusal
      exact admissionRefusal_retainable input.refusal_validation hrefusal
    | delete input => simp [hinvocation, BatchInvocation.refusal] at hrefusal
    | link input =>
      rw [hinvocation] at hrefusal
      exact admissionRefusal_retainable input.refusal_validation hrefusal
  · refine errorsIn_bind ?_ fun _ _ ↦ errorsIn_ok _
    unfold stageOperation
    split
    · exact stageCreate_errors
    · split
      · exact errorsIn_bind stagedSubject_errors fun _ _ ↦
          errorsIn_bind (errorsIn_check incidentLinksExist_retainable) fun _ _ ↦ errorsIn_ok _
      · exact errorsIn_bind stagedSubject_errors fun _ _ ↦
          errorsIn_bind updatedState_errors fun _ _ ↦
            errorsIn_bind admitEndpoints_errors fun _ _ ↦ errorsIn_ok _

theorem finishBatch_errors {time : String} {draws : Draws} :
    ErrorsIn Problem.Retainable (finishBatch config baseline graph time draws) := by
  refine errorsIn_bind (errorsIn_foldlM fun entry _ rows ↦ errorsIn_bind ?_ fun _ _ ↦
    errorsIn_ok _) fun _ _ ↦ errorsIn_bind (errorsIn_check limitExceeded_retainable) fun _ _ ↦
      errorsIn_ok _
  unfold finalRow
  split
  · exact errorsIn_ok _
  · exact errorsIn_ok _
  · split
    · exact errorsIn_ok _
    · refine errorsIn_bind (errorsIn_check (validationProblem_retainable _)) fun _ _ ↦ ?_
      split <;> exact errorsIn_ok _

end Refusals

section Served

variable {input : PreparedBatch config} {clock : ℕ → ℕ}

theorem evaluate_eq_ok {comparison : BatchComparison} {evaluation : BatchEvaluation}
    (h : store.evaluate input comparison clock = .ok evaluation) :
    (∃ problem : Problem, problem.Retainable ∧ evaluation = .refused config problem store.draws) ∨
    (input.members.length ≤ BATCH_LIMITS.maximumOperations ∧ ∃ graph,
      stageMembers input comparison store.batchBaseline store.draws.identity = .ok graph ∧
      finishBatch config store.batchBaseline graph (config.clockFormat.toISOString (clock 0))
        store.draws = .ok evaluation) := by
  unfold Store.evaluate at h
  split at h
  · exact Or.inl ⟨_, limitExceeded_retainable, (Except.ok.inj h).symm⟩
  next hmembers =>
  split at h
  · exact Or.inl ⟨_, limitExceeded_retainable, (Except.ok.inj h).symm⟩
  rw [bind_eq_ok] at h
  obtain ⟨instant, hnow, h⟩ := h
  obtain ⟨-, rfl⟩ := now_eq_ok.mp hnow
  unfold evaluateBatch at h
  split at h
  · simp at h
  · next problem hstage =>
    exact Or.inl ⟨problem, errorsIn_foldlM (fun entry _ _ ↦ evaluateMember_errors entry) _ hstage,
      (Except.ok.inj h).symm⟩
  · next graph hstage =>
    split at h
    · next finished hfinish =>
      obtain rfl := Except.ok.inj h
      exact Or.inr ⟨by simpa using hmembers, graph, hstage, hfinish⟩
    · next problem hfinish =>
      exact Or.inl ⟨problem, finishBatch_errors _ hfinish, (Except.ok.inj h).symm⟩

theorem batchWritten_refused (problem : Problem) :
    batchWritten config store (.refused config problem store.draws) [] = store := by
  simp [batchWritten, BatchEvaluation.refused, Table.insertRows, persistedRows,
    publishedEvents, publishedIncidence, publishedBoundaries]

variable {principal : String} {response : StoredResponse}

theorem refusedBatch_step {problem : Problem} (mode : config.batchMode = true)
    (version : input.capabilityVersion = "1")
    (fresh : store.previousOutcome principal input.key = none) (retainable : problem.Retainable)
    (h : commitBatch principal input (compareBatch input (store.aliasLookup config) none)
      (.refused config problem store.draws) [] store = .ok (result, response)) :
    Step config store result := by
  obtain ⟨rfl, -, capacity⟩ := commitBatch_eq_ok h
  rw [batchWritten_refused]
  exact .refusedBatch principal input problem mode version fresh retainable capacity

theorem applyBatch_step (h : applyBatch principal input clock store = .ok (result, response)) :
    Step config store result := by
  unfold applyBatch at h
  split at h
  · rw [bind_eq_ok] at h
    obtain ⟨replayed, -, h⟩ := h
    obtain ⟨rfl, rfl⟩ := Prod.mk.inj (Except.ok.inj h)
    exact .same
  next fresh =>
  split at h
  · obtain ⟨rfl, rfl⟩ := Prod.mk.inj (Except.ok.inj h)
    exact .same
  next hsupported =>
  have hsupported : config.batchMode = true ∧ input.capabilityVersion = "1" := by
    simpa using hsupported
  obtain ⟨mode, version⟩ := hsupported
  unfold decideFreshBatch at h
  rw [bind_eq_ok] at h
  obtain ⟨evaluation, hevaluation, h⟩ := h
  rw [bind_eq_ok] at h
  obtain ⟨facts, hfacts, h⟩ := h
  split at h
  · exact refusedBatch_step mode version fresh limitExceeded_retainable h
  obtain ⟨problem, retainable, rfl⟩ | ⟨hmembers, graph, hstage, hfinish⟩ :=
    evaluate_eq_ok hevaluation
  · obtain rfl : facts = [] := by
      have hall := batchFacts_eq_ok hfacts
      simpa [BatchEvaluation.effects, BatchEvaluation.refused] using hall
    exact refusedBatch_step mode version fresh retainable h
  · obtain ⟨rfl, -, capacity⟩ := commitBatch_eq_ok h
    exact .acceptedBatch principal input clock graph evaluation facts mode version fresh
      ⟨hmembers, hstage, hfinish, hfacts⟩ capacity

variable {captured : CapturedComparison}

theorem decideSingleton_step (context : RequestContext)
    {execute : ReferenceComparison → Store → Except Failure (Store × Outcome)}
    (hoperation : context.operation = operation) (captures : Captures captured context)
    (hexecute : ∀ middle outcome,
      execute (store.freshComparison config captured) store = .ok (middle, outcome) →
        Effect config context store middle outcome ∧ GuardsCaptured captured context outcome.status)
    (h : decideSingleton config principal key operation captured execute store =
      .ok (result, response)) : Step config store result := by
  subst hoperation
  unfold decideSingleton at h
  split at h
  · rw [bind_eq_ok] at h
    obtain ⟨replayed, -, h⟩ := h
    obtain ⟨rfl, rfl⟩ := Prod.mk.inj (Except.ok.inj h)
    exact .same
  next fresh =>
  rw [bind_eq_ok] at h
  obtain ⟨⟨middle, outcome⟩, hmiddle, h⟩ := h
  rw [bind_eq_ok] at h
  obtain ⟨decided, hdecided, h⟩ := h
  obtain ⟨rfl, rfl⟩ := Prod.mk.inj (Except.ok.inj h)
  obtain ⟨effect, guards⟩ := hexecute middle outcome hmiddle
  obtain ⟨capacity, rfl⟩ := recordDecision_eq_ok hdecided
  have hdecisions := effect.sameDecisions.decisions
  rw [hdecisions] at capacity ⊢
  exact .decided principal key captured context middle outcome fresh captures guards effect
    capacity

theorem link_slots (input : PreparedLink config) :
    SlotsOf input.operation.operation input.comparison.slots := by
  obtain ⟨source, target, hslots, -⟩ := input.slots_eq
  cases hoperation : input.operation with
  | createLink => exact ⟨source, target, hslots⟩
  | updateLink => exact ⟨source, target, hslots⟩
  | deleteLink => exact input.delete_slots hoperation

theorem not_guarded {context : RequestContext} {status : ℕ}
    (h : context.operation ≠ .updateBead) : GuardsCaptured captured context status :=
  fun hoperation ↦ absurd hoperation h

variable {reply : Reply}

theorem stored_eq_ok {attempt : Except Failure (Store × StoredResponse)}
    (h : (do let (store, stored) ← attempt; pure (store, Reply.response stored)) =
      .ok (result, reply)) :
    ∃ stored, attempt = .ok (result, stored) ∧ reply = .response stored := by
  obtain ⟨⟨decided, stored⟩, hdecided, h⟩ := bind_eq_ok.mp h
  obtain ⟨rfl, rfl⟩ := Prod.mk.inj (Except.ok.inj h)
  exact ⟨stored, hdecided, rfl⟩

theorem Request.step {request : Request config}
    (h : request.decide clock store = .ok (result, reply)) : Step config store result := by
  cases request with
  | create principal input =>
    obtain ⟨stored, hdecided, rfl⟩ := stored_eq_ok h
    exact decideSingleton_step (EditFields.empty.context .createBead) rfl
      ⟨input.operation_eq, input.input_nodup, input.slots_eq, by decide⟩
      (fun _ _ h ↦ ⟨applyCreate_effect h, not_guarded (by decide)⟩) hdecided
  | update principal input =>
    obtain ⟨stored, hdecided, rfl⟩ := stored_eq_ok h
    refine decideSingleton_step (input.edits.context .updateBead) rfl
      ⟨input.operation_eq, input.input_nodup, ⟨_, input.slots_eq⟩, nofun⟩
      (fun middle outcome h ↦ ⟨applyUpdate_effect h, fun _ hstatus ↦ ?_⟩) hdecided
    refine ⟨input.input_fromRevision, input.input_expectedRevision ?_⟩
    by_contra hrefusal
    obtain ⟨problem, hproblem⟩ := Option.ne_none_iff_exists'.mp hrefusal
    rw [applyUpdate, hproblem] at h
    obtain ⟨rfl, rfl⟩ := Prod.mk.inj (Except.ok.inj h)
    have hvalidation := (input.refusal_validation problem hproblem).2.1
    rw [refusal, hvalidation] at hstatus
    simp at hstatus
  | deleteBead principal input =>
    obtain ⟨stored, hdecided, rfl⟩ := stored_eq_ok h
    exact decideSingleton_step ⟨.deleteBead, none, input.expectedRevision⟩ rfl
      ⟨input.operation_eq, input.input_nodup, ⟨_, input.slots_eq⟩, nofun⟩
      (fun _ _ h ↦ ⟨applyDelete_effect h, not_guarded nofun⟩) hdecided
  | link principal input =>
    obtain ⟨stored, hdecided, rfl⟩ := stored_eq_ok h
    refine decideSingleton_step (input.edits.context input.operation.operation) rfl
      ⟨input.operation_eq, input.input_nodup, link_slots input, ?_⟩
      (fun _ _ h ↦ ⟨applyLink_effect h, not_guarded ?_⟩) hdecided <;>
      cases hoperation : input.operation <;> simp [EditFields.context] <;> decide
  | changeAlias principal input =>
    obtain ⟨stored, hdecided, rfl⟩ := stored_eq_ok h
    refine decideSingleton_step (EditFields.empty.context input.operation.operation) rfl
      ⟨input.operation_eq, input.input_nodup, ?_, ?_⟩
      (fun _ _ h ↦ ⟨applyAlias_effect h, not_guarded ?_⟩) hdecided <;>
      cases hoperation : input.operation <;>
      simp [EditFields.context, AliasOperation.operation, SlotsOf, input.slots_eq]
  | batch principal input =>
    obtain ⟨stored, hdecided, rfl⟩ := stored_eq_ok h
    exact applyBatch_step hdecided
  | events principal source subject selection =>
    rw [Request.decide, bind_eq_ok] at h
    obtain ⟨⟨read, page, rows⟩, hread, h⟩ := h
    obtain ⟨rfl, rfl⟩ := Prod.mk.inj (Except.ok.inj h)
    exact .paged principal source subject selection clock read page rows hread

theorem Owner.serve_step (owner : Owner) (request : Request config) (clock : ℕ → ℕ) :
    Step config owner.store (owner.serve request clock).1.store := by
  unfold Owner.serve Owner.transaction
  split
  · exact .same
  split
  · exact .same
  split
  · next hdecide => exact Request.step hdecide
  · exact .same

variable {P : Store → Prop} {owner : Owner}

theorem Owner.Run.invariant {start : Owner}
    (h : Owner.Run config start owner) (hstart : P start.store)
    (step : ∀ store result, P store → Step config store result → P result) : P owner.store := by
  induction h with
  | refl => exact hstart
  | served request clock _ ih => exact step _ _ ih (Owner.serve_step _ request clock)
  | reopened _ ih => exact ih

theorem Owner.Reachable.invariant (h : owner.Reachable config) (empty : P (Store.empty config))
    (step : ∀ store result, P store → Step config store result → P result) : P owner.store :=
  Owner.Run.invariant h empty step

end Served

end Bdp.Retained
