import Bdp.Transaction.Evaluation
import Bdp.Transaction.KeyLaw

/-!
# Positions and groups

The groups of every reachable store stand at the positions from one to the current position. The
position advances by one with each executed transaction that emitted an event, and with nothing
else; an evaluation that fails leaves the tables, the groups and the position.
-/

namespace Bdp.Transaction

open Relation

variable {config : StoreConfiguration} {clock : Clock} {turn : ℕ} {state after : Traced}

/-- A stored group: its place in the order of positions, and the framing of its events. -/
structure GroupFramed (config : StoreConfiguration) (epoch : String) (row : GroupRow) : Prop where
  position : row.body.position = row.position
  checkpoint : row.body.checkpoint = row.position
  previous : row.body.previousPosition + 1 = row.position
  scopeEpoch : row.body.scopeEpoch = epoch
  authorizationView : row.body.authorizationView = INITIAL_TRANSACTION_VIEW
  eventCount : row.body.eventCount = row.body.events.length
  effective : row.body.events ≠ []
  events : ∀ entry ∈ row.body.events.zipIdx, entry.1.ordinal = entry.2 ∧
    entry.1.source = config.scope ++ "events/" ∧ entry.1.transaction = row.body.transaction

structure GroupsInvariant (config : StoreConfiguration) (persisted : Persisted) : Prop where
  positions : persisted.groups.map GroupRow.position = List.range' 1 persisted.position
  framed : ∀ row ∈ persisted.groups, GroupFramed config persisted.epoch row

/-- The part of the durable state that only an execution touches. -/
structure SameEffects (before after : Persisted) : Prop where
  epoch : after.epoch = before.epoch
  position : after.position = before.position
  tables : after.tables = before.tables
  groups : after.groups = before.groups

theorem SameEffects.refl (persisted : Persisted) : SameEffects persisted persisted :=
  ⟨rfl, rfl, rfl, rfl⟩

theorem SameEffects.trans {before between after : Persisted} (first : SameEffects before between)
    (second : SameEffects between after) : SameEffects before after :=
  ⟨second.epoch.trans first.epoch, second.position.trans first.position,
    second.tables.trans first.tables, second.groups.trans first.groups⟩

theorem Transition.effects_cases (h : Transition config clock turn state after) :
    (after.history = state.history ∧ SameEffects state.persisted after.persisted) ∨
      ∃ executed : ExecutedRow config state.persisted,
        after.history = state.history ++ [executed.execution] ∧
          SameEffects executed.effected after.persisted := by
  cases h with
  | execute executed creatorFacts receiptPages =>
    exact Or.inr ⟨executed, rfl, rfl, rfl, rfl, rfl⟩
  | @expire principal key reading expired remaining expiring =>
    refine Or.inl ⟨rfl, ?_⟩
    cases expireKey_cases expiring with
    | inl kept =>
      rw [kept.1]
      exact SameEffects.refl _
    | inr changed =>
      obtain ⟨_, _, _, _, same⟩ := changed
      rw [same]
      exact ⟨rfl, rfl, rfl, rfl⟩
  | _ => exact Or.inl ⟨rfl, rfl, rfl, rfl, rfl⟩

def Execution.emitted (execution : Execution) : Bool := !execution.events.isEmpty

namespace ExecutedRow

variable {persisted : Persisted} (executed : ExecutedRow config persisted)

theorem cases_effected :
    (executed.execution.completed = false ∧ executed.execution.emitted = false ∧
        SameEffects persisted executed.effected) ∨
      (∃ evaluated, executed.evaluation = .ok evaluated ∧
        executed.execution.completed = true ∧ executed.execution.emitted = false ∧
        evaluated.events = [] ∧
        executed.effected = { persisted with tables := evaluated.tables }) ∨
      ∃ evaluated, executed.evaluation = .ok evaluated ∧
        executed.execution.completed = true ∧ executed.execution.emitted = true ∧
        evaluated.events ≠ [] ∧
        executed.effected = { persisted with
          tables := evaluated.tables
          position := persisted.position + 1
          groups := persisted.groups ++
            [{ position := persisted.position + 1
               body := transactionGroup persisted executed.current.receipt.core evaluated }] } := by
  unfold execution effected receipt Execution.emitted
  cases terminal : executed.evaluation with
  | failed problem => exact Or.inl ⟨rfl, rfl, SameEffects.refl _⟩
  | ok evaluated =>
    dsimp only [terminalEffect, BatchEvaluation.events]
    by_cases quiet : evaluated.events = []
    · refine Or.inr (Or.inl ⟨evaluated, rfl, ?_, ?_, quiet, ?_⟩)
      · rw [if_pos quiet]
        rfl
      · rw [quiet]
        rfl
      · rw [if_pos quiet]
    · refine Or.inr (Or.inr ⟨evaluated, rfl, ?_, ?_, quiet, ?_⟩)
      · rw [if_neg quiet]
        rfl
      · simpa using quiet
      · rw [if_neg quiet]

theorem groups_effected (h : GroupsInvariant config persisted) :
    GroupsInvariant config executed.effected := by
  cases executed.cases_effected with
  | inl failed =>
    obtain ⟨_, _, same⟩ := failed
    refine ⟨?_, ?_⟩
    · rw [same.groups, same.position]
      exact h.positions
    · rw [same.groups, same.epoch]
      exact h.framed
  | inr completed =>
    cases completed with
    | inl quiet =>
      obtain ⟨evaluated, _, _, _, _, same⟩ := quiet
      rw [same]
      exact ⟨h.positions, h.framed⟩
    | inr announced =>
      obtain ⟨evaluated, terminal, _, _, some_event, same⟩ := announced
      rw [same]
      refine ⟨?_, ?_⟩
      · dsimp only
        rw [List.map_append, h.positions, List.map_singleton, List.range'_concat, one_mul,
          add_comm 1]
      · intro row member
        cases List.mem_append.mp member with
        | inl before => exact h.framed row before
        | inr last =>
          have evaluating := executed.evaluated
          rw [terminal] at evaluating
          rw [List.mem_singleton.mp last]
          exact
            { position := rfl, checkpoint := rfl, previous := rfl, scopeEpoch := rfl
              authorizationView := rfl, eventCount := rfl, effective := some_event
              events := evaluateTransaction_framed evaluating }

end ExecutedRow

section

variable (h : GroupsInvariant config state.persisted)
include h

theorem GroupsInvariant.transition (step : Transition config clock turn state after) :
    GroupsInvariant config after.persisted := by
  have same {before later : Persisted} (h : GroupsInvariant config before)
      (effects : SameEffects before later) : GroupsInvariant config later := by
    refine ⟨?_, ?_⟩
    · rw [effects.groups, effects.position]
      exact h.positions
    · rw [effects.groups, effects.epoch]
      exact h.framed
  cases step.effects_cases with
  | inl quiet => exact same h quiet.2
  | inr executing =>
    obtain ⟨executed, _, effects⟩ := executing
    exact same (executed.groups_effected h) effects

theorem GroupsInvariant.transitions
    (steps : ReflTransGen (Transition config clock turn) state after) :
    GroupsInvariant config after.persisted := by
  induction steps with
  | refl => exact h
  | tail _ step ih => exact ih.transition step

end

/-- How many executions of a history emitted an event. -/
def emissions (history : List Execution) : ℕ := history.countP Execution.emitted

theorem emissions_append (history more : List Execution) :
    emissions (history ++ more) = emissions history + emissions more := List.countP_append

theorem Transition.position (h : Transition config clock turn state after) :
    after.persisted.position + emissions state.history =
        state.persisted.position + emissions after.history ∧
      after.persisted.epoch = state.persisted.epoch := by
  cases h.effects_cases with
  | inl quiet =>
    rw [quiet.1, quiet.2.position]
    exact ⟨rfl, quiet.2.epoch⟩
  | inr executing =>
    obtain ⟨executed, history, effects⟩ := executing
    have single : emissions [executed.execution] =
        if executed.execution.emitted = true then 1 else 0 := by
      simp [emissions, List.countP_cons]
    rw [history, emissions_append, effects.position, effects.epoch, single]
    cases executed.cases_effected with
    | inl failed =>
      obtain ⟨_, silent, same⟩ := failed
      rw [silent, same.position, same.epoch]
      simp
    | inr completed =>
      cases completed with
      | inl quiet =>
        obtain ⟨_, _, _, silent, _, same⟩ := quiet
        rw [silent, same]
        simp
      | inr announced =>
        obtain ⟨_, _, _, emitted, _, same⟩ := announced
        rw [same, if_pos emitted]
        refine ⟨?_, rfl⟩
        dsimp only
        omega

section

variable (h : ReflTransGen (Transition config clock turn) state after)
include h

theorem Transition.positions : after.persisted.position + emissions state.history =
        state.persisted.position + emissions after.history ∧
      after.persisted.epoch = state.persisted.epoch := by
  induction h with
  | refl => exact ⟨rfl, rfl⟩
  | tail _ step ih =>
    obtain ⟨position, epoch⟩ := step.position
    exact ⟨by omega, epoch.trans ih.2⟩

theorem Transition.uncompleted (failed : ∀ execution ∈ after.history, execution.completed = false) :
    SameEffects state.persisted after.persisted := by
  induction h with
  | refl => exact SameEffects.refl _
  | @tail between last before step ih =>
    cases step.effects_cases with
    | inl quiet => exact (ih (quiet.1 ▸ failed)).trans quiet.2
    | inr executing =>
      obtain ⟨executed, history, effects⟩ := executing
      rw [history] at failed
      have earlier := ih fun execution member ↦ failed execution (List.mem_append_left _ member)
      have now := failed executed.execution (List.mem_append_right _ (List.mem_singleton_self _))
      cases executed.cases_effected with
      | inl unchanged => exact (earlier.trans unchanged.2.2).trans effects
      | inr completed =>
        cases completed with
        | inl quiet =>
          obtain ⟨_, _, done, _⟩ := quiet
          rw [now] at done
          cases done
        | inr announced =>
          obtain ⟨_, _, done, _⟩ := announced
          rw [now] at done
          cases done

end

namespace TransactionStore

variable {store : TransactionStore}

theorem GroupsInvariant.run {epoch : String} {history : List Execution}
    (run : Run config (created epoch) history store) :
    GroupsInvariant config store.persisted ∧ store.persisted.epoch = epoch ∧
      store.persisted.position = emissions history := by
  induction run with
  | refl => exact ⟨⟨rfl, fun _ member ↦ absurd member List.not_mem_nil⟩, rfl, rfl⟩
  | @called store history faults clock request before ih =>
    obtain ⟨invariant, epoch, position⟩ := ih
    have entered : Enters config clock store.turn _ store _ :=
      call_enters (KeyInvariant.run before).unique faults request
    obtain ⟨draw, steps⟩ := entered.reaches history
    obtain ⟨counted, same_epoch⟩ := Transition.positions steps
    refine ⟨invariant.transitions steps, same_epoch.trans epoch, ?_⟩
    dsimp only at counted position ⊢
    omega

theorem claimExecutions_length (faults : Fault) (clock : Clock) (evaluators : Evaluators)
    (owner : String) :
    (store.claimExecutions config faults clock evaluators owner).length ≤ 1 := by
  unfold claimExecutions
  split
  · exact Nat.zero_le 1
  · split
    · exact le_rfl
    · exact le_rfl
    · exact Nat.zero_le 1

variable (faults : ℕ → Fault)

theorem turnExecutions_length (clock : Clock) (evaluators : Evaluators)
    (state : SequenceState) (member : SequenceMember) :
    (store.turnExecutions config faults clock evaluators state member).length ≤ 1 := by
  unfold turnExecutions
  split
  · split
    · exact Nat.zero_le 1
    · dsimp only
      split
      · exact claimExecutions_length _ _ _ _
      · exact Nat.zero_le 1
  · dsimp only
    split
    · exact claimExecutions_length _ _ _ _
    · exact Nat.zero_le 1
  · exact Nat.zero_le 1

theorem executions_length (clock : Clock) (request : TransactionCall) :
    (store.executions config faults clock request).length ≤ 1 := by
  unfold executions
  split
  · split
    · exact Nat.zero_le 1
    · exact claimExecutions_length _ _ _ _
  · split
    · exact Nat.zero_le 1
    · split
      · exact Nat.zero_le 1
      · split
        · exact Nat.zero_le 1
        · split
          · exact Nat.zero_le 1
          · exact turnExecutions_length _ _ _ _ _
  · exact Nat.zero_le 1

/-- The law of the positions in a state that was reached with some executions. -/
structure PositionLaw (config : StoreConfiguration) (history : List Execution)
    (store : TransactionStore) : Prop where
  positions : store.persisted.groups.map GroupRow.position =
    List.range' 1 store.persisted.position
  previous : ∀ row ∈ store.persisted.groups, row.body.position = row.position ∧
    row.body.previousPosition + 1 = row.position
  ordinals : ∀ row ∈ store.persisted.groups, row.body.events ≠ [] ∧
    row.body.events.map TransactionEvent.ordinal = List.range row.body.events.length
  counted : store.persisted.position = emissions history
  /-- A call executes one transaction or none, and advances by one when it emitted an event. -/
  advances : ∀ (faults : ℕ → Fault) (clock : Clock) (request : TransactionCall),
    (store.executions config faults clock request).length ≤ 1 ∧
      (store.call config faults clock request).persisted.position =
        store.persisted.position + emissions (store.executions config faults clock request)
  /-- A call without a completed transaction leaves the tables, the groups and the position. -/
  unaffected : ∀ (faults : ℕ → Fault) (clock : Clock) (request : TransactionCall),
    (∀ execution ∈ store.executions config faults clock request, execution.completed = false) →
      SameEffects store.persisted (store.call config faults clock request).persisted
  /-- A failed evaluation ends in a failed receipt and leaves all of them. -/
  failure : ∀ (evaluators : Evaluators) (clock : Clock) (turn : ℕ) (claim : Claim)
    (current : ReceiptRow) (problem : BatchProblem) (after : Persisted) (receipt : Receipt),
    evaluateClaim config evaluators clock claim store.persisted = .ok (current, .failed problem) →
    executeTransaction config evaluators clock turn claim store.persisted = .ok (after, receipt) →
    receipt.disposition.isCompleted = false ∧ SameEffects store.persisted after

theorem ordinals_eq_range {events : List TransactionEvent}
    (h : ∀ entry ∈ events.zipIdx, entry.1.ordinal = entry.2) :
    events.map TransactionEvent.ordinal = List.range events.length := by
  apply List.ext_getElem
  · rw [List.length_map, List.length_range]
  · intro index inside _
    rw [List.length_map] at inside
    rw [List.getElem_map, List.getElem_range]
    have member : (events[index], index) ∈ events.zipIdx := by
      rw [List.mem_zipIdx_iff_getElem?]
      exact List.getElem?_eq_getElem inside
    exact h _ member

theorem executeTransaction_failed {evaluators : Evaluators} {claim : Claim} {entry : ℕ}
    {persisted after : Persisted} {receipt : Receipt} {current : ReceiptRow}
    {problem : BatchProblem}
    (evaluated : evaluateClaim config evaluators clock claim persisted =
      .ok (current, .failed problem))
    (h : executeTransaction config evaluators clock entry claim persisted = .ok (after, receipt)) :
    receipt.disposition.isCompleted = false ∧ SameEffects persisted after := by
  unfold executeTransaction at h
  rw [evaluated, Except.ok_bind] at h
  dsimp only at h
  rw [Except.bind_eq_ok] at h
  obtain ⟨finished, _, h⟩ := h
  rw [Except.bind_eq_ok] at h
  obtain ⟨recorded, record, done⟩ := h
  obtain ⟨creatorFacts, same⟩ := recordCreator_eq_ok record
  subst same
  cases done
  exact ⟨rfl, rfl, rfl, rfl, rfl⟩

/-- Every run keeps the law of the positions. -/
theorem position_law {history : List Execution} (reachable : Reachable config history store) :
    PositionLaw config history store := by
  obtain ⟨epoch, run⟩ := reachable
  obtain ⟨invariant, _, position⟩ := GroupsInvariant.run run
  have unique := (KeyInvariant.run run).unique
  exact
    { positions := invariant.positions
      previous := fun row member ↦
        ⟨(invariant.framed row member).position, (invariant.framed row member).previous⟩
      ordinals := fun row member ↦ ⟨(invariant.framed row member).effective,
        ordinals_eq_range fun entry inside ↦ ((invariant.framed row member).events entry inside).1⟩
      counted := position
      advances := by
        intro faults clock request
        refine ⟨executions_length faults clock request, ?_⟩
        have entered : Enters config clock store.turn _ store _ :=
          call_enters unique faults request
        obtain ⟨draw, steps⟩ := entered.reaches []
        obtain ⟨counted, _⟩ := Transition.positions steps
        exact counted
      unaffected := by
        intro faults clock request failed
        have entered : Enters config clock store.turn _ store _ :=
          call_enters unique faults request
        obtain ⟨draw, steps⟩ := entered.reaches []
        exact Transition.uncompleted steps failed
      failure := fun evaluators clock turn claim current problem after receipt ↦
        executeTransaction_failed }

/-- The law of positions on a store whose one transaction has emitted an event. -/
theorem position_law_created :
    (∃ history, PositionLaw beadConfiguration history beadCreated) ∧
      beadCreated.persisted.position = 1 := by
  obtain ⟨history, reachable⟩ := beadCreated_reachable
  exact ⟨⟨history, position_law reachable⟩, by decide +kernel⟩

end TransactionStore

end Bdp.Transaction
