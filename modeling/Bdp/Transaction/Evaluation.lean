import Bdp.Transaction.Batch

/-!
# What an evaluation records

Every step of an evaluation appends framed events. A step that only announces keeps the tables and
the changes; an effective mutation rewrites the tables and records the final images of what it
wrote.
-/

namespace Bdp.Transaction

open Recovery (StoredResource)
open Bdp.Except (bind_eq_ok)

variable {evaluators : Evaluators} {context : EvaluationContext}
variable {state between after : EvaluationState}

/-- Events numbered from a start, in the source and the transaction of their context. -/
def FramedFrom (context : EvaluationContext) (start : ℕ) (events : List TransactionEvent) : Prop :=
  ∀ entry ∈ events.zipIdx start, entry.1.ordinal = entry.2 ∧
    entry.1.source = context.scope ++ "events/" ∧ entry.1.transaction = context.transaction

theorem FramedFrom.nil (start : ℕ) : FramedFrom context start [] :=
  fun _ member ↦ absurd member List.not_mem_nil

theorem FramedFrom.append {start : ℕ} {events more : List TransactionEvent}
    (first : FramedFrom context start events)
    (second : FramedFrom context (start + events.length) more) :
    FramedFrom context start (events ++ more) := by
  intro entry member
  rw [List.zipIdx_append] at member
  cases List.mem_append.mp member with
  | inl before => exact first entry before
  | inr last => exact second entry last

def Emits (context : EvaluationContext) (state after : EvaluationState) : Prop :=
  ∃ events, after.events = state.events ++ events ∧
    FramedFrom context state.events.length events

theorem Emits.refl (state : EvaluationState) : Emits context state state :=
  ⟨[], (List.append_nil _).symm, FramedFrom.nil _⟩

theorem Emits.of_eq (same : after.events = state.events) : Emits context state after :=
  ⟨[], same.trans (List.append_nil _).symm, FramedFrom.nil _⟩

theorem Emits.trans (first : Emits context state between) (second : Emits context between after) :
    Emits context state after := by
  obtain ⟨events, appended, framed⟩ := first
  obtain ⟨more, appended_later, framed_later⟩ := second
  refine ⟨events ++ more, ?_, framed.append ?_⟩
  · rw [appended_later, appended, List.append_assoc]
  · rw [appended, List.length_append] at framed_later
    exact framed_later

/-- A step that emits and touches neither the tables nor the changes. -/
structure Announces (context : EvaluationContext) (state after : EvaluationState) : Prop where
  emits : Emits context state after
  tables : after.tables = state.tables
  changes : after.changes = state.changes

theorem Announces.refl (state : EvaluationState) : Announces context state state :=
  ⟨Emits.refl state, rfl, rfl⟩

theorem Announces.trans (first : Announces context state between)
    (second : Announces context between after) : Announces context state after :=
  ⟨first.emits.trans second.emits, second.tables.trans first.tables,
    second.changes.trans first.changes⟩

variable {subject : ResourceRecord}

theorem scopeEvent_announces {type : EventType} {data : EventData}
    (h : scopeEvent context subject type data state = .ok after) :
    Announces context state after ∧ after.events ≠ [] := by
  unfold scopeEvent at h
  rw [check_bind_eq_ok] at h
  obtain ⟨_, done⟩ := h
  cases done
  refine ⟨⟨⟨_, rfl, ?_⟩, rfl, rfl⟩, by simp⟩
  intro entry member
  rw [List.zipIdx_singleton, List.mem_singleton] at member
  subst member
  exact ⟨rfl, rfl, rfl⟩

variable {before : Option ResourceRecord} {input : Json} {outcome : OutcomeKind}

theorem lifecycleEvent_announces
    (h : lifecycleEvent context input before subject outcome state = .ok after) :
    Announces context state after ∧ after.events ≠ [] := by
  unfold lifecycleEvent at h
  cases outcome with
  | created => exact scopeEvent_announces h
  | updated =>
    rw [bind_eq_ok] at h
    obtain ⟨_, _, h⟩ := h
    exact scopeEvent_announces h
  | deleted => exact scopeEvent_announces h

theorem incidenceEvent_announces {endpoints : Reference × Reference} {endpoint : Endpoint}
    (h : incidenceEvent context subject outcome endpoints state endpoint = .ok after) :
    Announces context state after := by
  unfold incidenceEvent at h
  dsimp only at h
  split at h
  · cases h
    exact Announces.refl _
  · rw [check_bind_eq_ok] at h
    exact (scopeEvent_announces h.2).1

theorem incidenceEvents_announces (h : incidenceEvents context subject outcome state = .ok after) :
    Announces context state after := by
  unfold incidenceEvents at h
  split at h
  · split at h
    · cases h
      exact Announces.refl _
    · rw [List.foldlM_cons, bind_eq_ok] at h
      obtain ⟨sourced, first, h⟩ := h
      rw [List.foldlM_cons, bind_eq_ok] at h
      obtain ⟨targeted, second, done⟩ := h
      cases done
      exact (incidenceEvent_announces first).trans (incidenceEvent_announces second)
  · cases h
    exact Announces.refl _

theorem ownerEvent_announces {staged : Tables} {success : MutationSuccess}
    (h : ownerEvent context input staged success before subject state = .ok after) :
    Announces context state after := by
  unfold ownerEvent at h
  split at h
  · cases h
    exact Announces.refl _
  · simp only [bind_eq_ok] at h
    obtain ⟨_, _, _, _, _, _, _, _, _, _, _, _, _, _, _, _, announced⟩ := h
    exact (scopeEvent_announces announced).1

theorem recordUpsert_eq_ok {id : String} (h : recordUpsert context state id = .ok after) :
    ∃ row record, state.tables.resources[id]? = some row ∧
      readStoredResource context.toRecordReader row = .ok record ∧
      after = { state with changes := setChange state.changes (.upsert record.kind record) } := by
  unfold recordUpsert at h
  rw [bind_eq_ok] at h
  obtain ⟨row, found, h⟩ := h
  rw [bind_eq_ok] at h
  obtain ⟨record, read, done⟩ := h
  cases done
  exact ⟨row, record, require_eq_ok.mp found, read, rfl⟩

theorem recordTombstone_eq_ok {outcome : ReadUpdateMutationResult} {id : String}
    (h : recordTombstone context before outcome state id = .ok after) :
    ∃ kind identity, identity.id = context.scope ++ id ∧
      after = { state with changes := setChange state.changes (.tombstone kind identity) } := by
  unfold recordTombstone at h
  rw [bind_eq_ok] at h
  obtain ⟨previous, _, h⟩ := h
  rw [bind_eq_ok] at h
  obtain ⟨⟨kind, identity⟩, _, h⟩ := h
  dsimp only at h
  rw [check_bind_eq_ok] at h
  obtain ⟨same, done⟩ := h
  cases done
  exact ⟨kind, identity, same.2.1.trans same.1, rfl⟩

/-- A step that records changes and nothing else. -/
structure Records (state after : EvaluationState) : Prop where
  events : after.events = state.events
  tables : after.tables = state.tables

theorem recordUpserts_records {ids : List String}
    (h : ids.foldlM (recordUpsert context) state = .ok after) : Records state after := by
  induction ids generalizing state with
  | nil =>
    cases h
    exact ⟨rfl, rfl⟩
  | cons id ids ih =>
    rw [List.foldlM_cons, bind_eq_ok] at h
    obtain ⟨next, step, rest⟩ := h
    obtain ⟨_, _, _, _, same⟩ := recordUpsert_eq_ok step
    subst same
    have later := ih rest
    exact ⟨later.events, later.tables⟩

/-- The changes of an effective mutation: the final image of each written row, then the deletion. -/
structure RecordsTransition (context : EvaluationContext) (success : MutationSuccess)
    (state after : EvaluationState) : Prop where
  emits : Emits context state after
  effective : after.events ≠ []
  tables : after.tables = state.tables
  changes : ∃ upserted removed : EvaluationState,
    (success.writes.map StoredResource.id).foldlM (recordUpsert context) state = .ok upserted ∧
    (match success.deleted with
      | none => removed = upserted
      | some id => ∃ kind identity, identity.id = context.scope ++ id ∧
          removed =
            { upserted with changes := setChange upserted.changes (.tombstone kind identity) }) ∧
    after.changes = removed.changes

theorem recordTransition_records {staged : Tables} {success : MutationSuccess}
    (h : recordTransition context input staged success before state = .ok after) :
    RecordsTransition context success state after := by
  unfold recordTransition at h
  rw [bind_eq_ok] at h
  obtain ⟨subject, _, h⟩ := h
  rw [bind_eq_ok] at h
  obtain ⟨upserted, upserting, h⟩ := h
  rw [bind_eq_ok] at h
  obtain ⟨removed, removing, h⟩ := h
  rw [bind_eq_ok] at h
  obtain ⟨announced, announcing, h⟩ := h
  rw [bind_eq_ok] at h
  obtain ⟨linked, linking, owning⟩ := h
  have first := recordUpserts_records upserting
  have deletion : Records upserted removed ∧ (match success.deleted with
        | none => removed = upserted
        | some id => ∃ kind identity, identity.id = context.scope ++ id ∧
            removed = { upserted with
              changes := setChange upserted.changes (.tombstone kind identity) }) := by
    cases deleted : success.deleted with
    | none =>
      rw [deleted] at removing
      cases removing
      exact ⟨⟨rfl, rfl⟩, rfl⟩
    | some id =>
      rw [deleted, Option.toList_some, List.foldlM_cons, bind_eq_ok] at removing
      obtain ⟨next, step, done⟩ := removing
      cases done
      obtain ⟨kind, identity, same, tombstoned⟩ := recordTombstone_eq_ok step
      refine ⟨?_, kind, identity, same, tombstoned⟩
      rw [tombstoned]
      exact ⟨rfl, rfl⟩
  obtain ⟨second, net⟩ := deletion
  obtain ⟨lifecycle, some_event⟩ := lifecycleEvent_announces announcing
  have incidence := incidenceEvents_announces linking
  have owner := ownerEvent_announces owning
  have announces := (lifecycle.trans incidence).trans owner
  have quiet : Emits context state removed := Emits.of_eq (second.events.trans first.events)
  refine ⟨quiet.trans announces.emits, ?_, ?_, upserted, removed, upserting, net, announces.changes⟩
  · obtain ⟨more, appended, _⟩ := (incidence.trans owner).emits
    rw [appended]
    exact fun none ↦ some_event (List.append_eq_nil_iff.mp none).1
  · exact announces.tables.trans (second.tables.trans first.tables)

variable {operationIndex : ℕ}

theorem applyResource_eq_ok {operation : ResourceOperation} {name : Option String}
    {aliases : List (String × Option String)}
    (h : applyResource evaluators context operation name input operationIndex aliases state =
      .ok after) :
    ∃ success : MutationSuccess, ∃ applied : EvaluationState,
      applied.tables = applyWrites state.tables success ∧ applied.events = state.events ∧
      applied.changes = state.changes ∧
      ((success.writes = [] ∧ success.deleted = none ∧ after = applied) ∨
        RecordsTransition context success applied after) := by
  unfold applyResource at h
  rw [bind_eq_ok] at h
  obtain ⟨before, _, h⟩ := h
  rw [bind_eq_ok] at h
  obtain ⟨success, _, h⟩ := h
  rw [bind_eq_ok] at h
  obtain ⟨_, _, h⟩ := h
  refine ⟨success, { state with
    tables := applyWrites state.tables success
    results := state.results ++ [.resource operationIndex name success.outcome]
    bindings := bindCreated state.bindings name success.outcome }, rfl, rfl, rfl, ?_⟩
  split at h
  next idle =>
    cases h
    exact Or.inl ⟨idle.1, idle.2, rfl⟩
  next => exact Or.inr (recordTransition_records h)

/-- A property of evaluation states that every operation keeps: it looks at the tables of
Resources, the events and the changes alone, and each operation on one Resource keeps it. -/
structure Kept (evaluators : Evaluators) (context : EvaluationContext)
    (P : EvaluationState → Prop) : Prop where
  frame : ∀ {state after : EvaluationState}, P state →
    after.tables.resources = state.tables.resources →
    after.tables.identities = state.tables.identities → after.events = state.events →
    after.changes = state.changes → P after
  resource : ∀ {state after : EvaluationState} {operation : ResourceOperation}
    {name : Option String} {input : Json} {operationIndex : ℕ}
    {aliases : List (String × Option String)}, P state →
    applyResource evaluators context operation name input operationIndex aliases state =
      .ok after → P after

namespace Kept

variable {P : EvaluationState → Prop} {normalized : NormalizedTransaction}

section

variable (kept : Kept evaluators context P)
include kept

theorem set {remove : Bool} {input : SetInput} (holds : P state)
    (h : applySet evaluators context normalized remove input operationIndex state = .ok after) :
    P after := by
  unfold applySet at h
  rw [bind_eq_ok] at h
  obtain ⟨admitted, _, h⟩ := h
  rw [bind_eq_ok] at h
  obtain ⟨selected, _, h⟩ := h
  rw [check_bind_eq_ok] at h
  obtain ⟨_, h⟩ := h
  dsimp only at h
  rw [check_bind_eq_ok] at h
  obtain ⟨_, h⟩ := h
  have started : P { state with
      matchedResources := state.matchedResources + selected.length
      results := state.results ++ [.matched operationIndex selected.length] } :=
    kept.frame holds rfl rfl rfl rfl
  refine replay_induction (fun _ ↦ P) h started ?_
  intro _ resource between next holds_between step
  exact kept.resource holds_between (mapProblem_eq_ok.mp step)

theorem aliasMutation {remove : Bool} (holds : P state)
    (h : applyAlias evaluators normalized remove input operationIndex state = .ok after) :
    P after := by
  unfold applyAlias at h
  rw [check_bind_eq_ok, bind_eq_ok] at h
  obtain ⟨_, ⟨aliases, outcome⟩, _, done⟩ := h
  cases done
  exact kept.frame holds rfl rfl rfl rfl

theorem operation {entry : BatchOperation × ℕ} (holds : P state)
    (h : applyOperation evaluators context normalized state entry = .ok after) : P after := by
  unfold applyOperation at h
  rw [check_bind_eq_ok] at h
  obtain ⟨_, h⟩ := h
  split at h
  · exact kept.set holds h
  · rw [bind_eq_ok] at h
    obtain ⟨input, _, h⟩ := h
    exact kept.aliasMutation holds h
  · rw [bind_eq_ok] at h
    obtain ⟨input, _, h⟩ := h
    rw [bind_eq_ok] at h
    obtain ⟨aliases, _, h⟩ := h
    exact kept.resource holds h

theorem evaluation {tables : Tables}
    (holds : P { tables, results := [], events := [], changes := [], bindings := []
                 matchedResources := 0 })
    (h : evaluateTransaction evaluators context normalized tables = .ok (.ok after)) : P after := by
  unfold evaluateTransaction at h
  split at h
  next final folded =>
    cases h
    exact replay_induction (fun _ ↦ P) folded holds fun _ _ _ _ holds step ↦
      kept.operation holds step
  all_goals cases h

end

end Kept

theorem evaluateTransaction_framed {normalized : NormalizedTransaction} {tables : Tables}
    (h : evaluateTransaction evaluators context normalized tables = .ok (.ok after)) :
    FramedFrom context 0 after.events := by
  have kept : Kept evaluators context fun state ↦ FramedFrom context 0 state.events :=
    { frame := by
        intro state after framed _ _ same _
        rw [same]
        exact framed
      resource := by
        intro state after operation name input operationIndex aliases framed applied
        obtain ⟨success, staged, _, events, _, recorded⟩ := applyResource_eq_ok applied
        cases recorded with
        | inl idle =>
          rw [idle.2.2, events]
          exact framed
        | inr records =>
          obtain ⟨more, appended, framed_more⟩ := records.emits
          rw [appended, events]
          rw [events] at framed_more
          refine framed.append ?_
          rwa [Nat.zero_add] }
  exact kept.evaluation (FramedFrom.nil 0) h

end Bdp.Transaction
