import Bdp.Transaction.Store

/-!
# Transitions of the durable part

What a call can do to the durable part, said once: every call is a sequence of the transitions of
this file. Only the execution of an owned pending row touches the tables, the groups or the
position, and it is recorded in a history of executions.
-/

namespace Bdp.Transaction

open Relation

/-- The durable part with the executions so far and the next free draw of the entry. -/
structure Traced where
  persisted : Persisted
  history : List Execution
  draw : ℕ

/-- The terminal evaluation of an owned pending row, with everything it was evaluated under. -/
structure ExecutedRow (config : StoreConfiguration) (persisted : Persisted) where
  claim : Claim
  current : ReceiptRow
  evaluators : Evaluators
  normalized : NormalizedTransaction
  now : ℤ
  expiresAt : ℤ
  evaluation : BatchEvaluation
  found : persisted.row claim.principal claim.key = some current
  owned : current.owner = some claim.owner
  bounded : persisted.position < maxSafeInteger
  evaluated : evaluateTransaction evaluators
    (evaluationContext config persisted current.receipt.core now) normalized persisted.tables =
      .ok evaluation

namespace ExecutedRow

variable {config : StoreConfiguration} {persisted : Persisted}

def receipt (executed : ExecutedRow config persisted) : Receipt :=
  (terminalEffect persisted executed.current.receipt.core executed.expiresAt executed.evaluation).2

def effected (executed : ExecutedRow config persisted) : Persisted :=
  (terminalEffect persisted executed.current.receipt.core executed.expiresAt executed.evaluation).1

def execution (executed : ExecutedRow config persisted) : Execution :=
  { principal := executed.claim.principal
    key := executed.claim.key
    transaction := executed.receipt.core.transaction
    completed := executed.receipt.disposition.isCompleted
    events := executed.evaluation.events }

end ExecutedRow

inductive Transition (config : StoreConfiguration) (clock : Clock) (turn : ℕ) :
    Traced → Traced → Prop where
  | expire {state : Traced} {principal key : String} {reading : ℕ} {after : Persisted}
      {remaining : Option ReceiptRow}
      (expired : state.persisted.expireKey principal key (clock reading) = .ok (after, remaining)) :
      Transition config clock turn state { state with persisted := after }
  | insert {state : Traced} {draw : ℕ} {principal key : String}
      {normalized : Option NormalizedTransaction} {template : Option DependencyTemplate}
      (le : state.draw ≤ draw) (absent : state.persisted.row principal key = none) :
      Transition config clock turn state
        { state with
          persisted := (insertPending config state.persisted turn draw principal key normalized
            template).1
          draw := draw + 3 }
  | release {state : Traced} (principal key owner : String) :
      Transition config clock turn state
        { state with persisted := state.persisted.deleteOwned principal key owner }
  | bind {state : Traced} (claim : Claim) (normalized : NormalizedTransaction) :
      Transition config clock turn state
        { state with persisted := state.persisted.bindOwned claim normalized }
  | facts {state : Traced} (creatorFacts : List CreatorRow) :
      Transition config clock turn state
        { state with persisted := { state.persisted with creatorFacts } }
  | policy {state : Traced} (entry draw : ℕ) :
      Transition config clock turn state
        { state with persisted := { state.persisted with
            authorizationPolicy := emptyTransactionAuthorization (config.uuid entry draw) } }
  | retract {state : Traced} :
      Transition config clock turn state
        { state with persisted := { state.persisted with
            receipts := state.persisted.receipts.filter fun row ↦ row.owner == none
            creatorFacts := [] } }
  | execute {state : Traced} (executed : ExecutedRow config state.persisted)
      (creatorFacts : List CreatorRow) (receiptPages : List ReceiptPagePlan)
      (pages : receiptPages = state.persisted.receiptPages ++
        pagePlan config turn executed.claim.principal executed.claim.key executed.receipt) :
      Transition config clock turn state
        { state with
          persisted := { finishReceipt executed.effected executed.claim executed.receipt with
            creatorFacts, receiptPages }
          history := state.history ++ [executed.execution] }

variable {remaining : Option ReceiptRow} {row : ReceiptRow} {now : ℤ}

section Expiry

/-- What the expiry of a terminal row leaves: nothing of a failure, a compact completion. -/
inductive Expires (now : ℤ) (row : ReceiptRow) : Option ReceiptRow → Prop where
  | forgotten {requiredPosition : ℕ} {problem : BatchProblem} {expiresAt : ℤ}
      (failed : row.receipt.disposition = .failed requiredPosition problem expiresAt)
      (past : expiresAt < now) : Expires now row none
  | compacted {requiredPosition : ℕ} {effectPosition : Option ℕ} {results : List ResultEntry}
      {expiresAt : ℤ} {receipt : Receipt}
      (completed : row.receipt.disposition =
        .completed requiredPosition effectPosition results expiresAt)
      (past : expiresAt < now)
      (compact : compactReceipt row.receipt.core requiredPosition effectPosition results =
        .ok receipt) : Expires now row (some { row with receipt })

/-- The rows with the expired one replaced by what remains of it. -/
def replaceTerminal (rows : List ReceiptRow) (principal key : String)
    (remaining : Option ReceiptRow) : List ReceiptRow :=
  rows.filterMap fun other ↦
    if other.named principal key ∧ other.owner = none then remaining else some other

theorem expireRow_cases
    {change : Option ExpiryChange} (h : expireRow row now = .ok (remaining, change)) :
    (change = none ∧ remaining = some row) ∨
      (change ≠ none ∧ row.owner = none ∧ Expires now row remaining) := by
  unfold expireRow at h
  split at h
  · cases h
    exact Or.inl ⟨rfl, rfl⟩
  next unowned =>
    have owner : row.owner = none := not_not.mp unowned
    split at h
    case h_1 => cases h
    case h_2 =>
      cases h
      exact Or.inl ⟨rfl, rfl⟩
    case h_3 requiredPosition problem expiresAt failed =>
      split at h
      · cases h
        exact Or.inl ⟨rfl, rfl⟩
      next late =>
        cases h
        exact Or.inr ⟨nofun, owner, .forgotten failed (not_le.mp late)⟩
    case h_4 requiredPosition effectPosition results expiresAt completed =>
      split at h
      · cases h
        exact Or.inl ⟨rfl, rfl⟩
      next late =>
        rw [Except.bind_eq_ok] at h
        obtain ⟨receipt, compact, done⟩ := h
        cases done
        exact Or.inr ⟨nofun, owner, .compacted completed (not_le.mp late) compact⟩

theorem expireKey_cases {persisted after : Persisted} {principal key : String}
    (h : persisted.expireKey principal key now = .ok (after, remaining)) :
    (after = persisted ∧ remaining = persisted.row principal key) ∨
      ∃ row, persisted.row principal key = some row ∧ row.owner = none ∧ Expires now row remaining ∧
        after = { persisted with
          receipts := replaceTerminal persisted.receipts principal key remaining } := by
  unfold Persisted.expireKey at h
  split at h
  next absent =>
    cases h
    exact Or.inl ⟨rfl, absent.symm⟩
  next row found =>
    rw [Except.bind_eq_ok] at h
    obtain ⟨⟨outcome, change⟩, expired, h⟩ := h
    cases expireRow_cases expired with
    | inl kept =>
      obtain ⟨unchanged, same⟩ := kept
      subst unchanged same
      cases h
      exact Or.inl ⟨rfl, found.symm⟩
    | inr changed =>
      obtain ⟨some_change, owner, expires⟩ := changed
      cases change with
      | none => exact absurd rfl some_change
      | some change =>
        cases h
        exact Or.inr ⟨row, found, owner, expires, rfl⟩

theorem Expires.name {remaining : ReceiptRow} (h : Expires now row (some remaining)) :
    remaining.name = row.name ∧ remaining.owner = row.owner := by
  cases h
  exact ⟨rfl, rfl⟩

end Expiry

section Names

variable {principal key : String}

theorem ReceiptRow.named_iff : row.named principal key = true ↔ row.name = (principal, key) := by
  simp [named, name]

def NamesUnique (rows : List ReceiptRow) : Prop := (rows.map ReceiptRow.name).Nodup

variable {rows : List ReceiptRow}

theorem find?_row (h : rows.find? (fun row ↦ row.named principal key) = some row) :
    row ∈ rows ∧ row.name = (principal, key) := by
  have named := List.find?_some h
  exact ⟨List.mem_of_find?_eq_some h, ReceiptRow.named_iff.mp named⟩

theorem NamesUnique.eq_of_mem (unique : NamesUnique rows)
    {other : ReceiptRow} (member : row ∈ rows) (other_member : other ∈ rows)
    (same : row.name = other.name) : row = other :=
  List.inj_on_of_nodup_map unique member other_member same

theorem find?_row_eq_none : rows.find? (fun row ↦ row.named principal key) = none ↔
      ∀ row ∈ rows, row.name ≠ (principal, key) := by
  simp [List.find?_eq_none, ReceiptRow.named_iff]

theorem NamesUnique.filterMap (unique : NamesUnique rows) {rewrite : ReceiptRow → Option ReceiptRow}
    (names : ∀ row ∈ rows, ∀ after, rewrite row = some after → after.name = row.name) :
    NamesUnique (rows.filterMap rewrite) := by
  have sublist : ((rows.filterMap rewrite).map ReceiptRow.name).Sublist
      (rows.map ReceiptRow.name) := by
    clear unique
    induction rows with
    | nil => exact List.Sublist.refl _
    | cons row rows ih =>
      have tail := ih fun other member ↦ names other (List.mem_cons_of_mem _ member)
      cases rewritten : rewrite row with
      | none =>
        rw [List.filterMap_cons_none rewritten]
        exact tail.cons _
      | some after =>
        rw [List.filterMap_cons_some rewritten, List.map_cons, List.map_cons,
          names row List.mem_cons_self after rewritten]
        exact tail.cons_cons _
  exact sublist.nodup unique

theorem NamesUnique.map (unique : NamesUnique rows)
    {rewrite : ReceiptRow → ReceiptRow} (names : ∀ row, (rewrite row).name = row.name) :
    NamesUnique (rows.map rewrite) := by
  have same : ReceiptRow.name ∘ rewrite = ReceiptRow.name := funext names
  rw [NamesUnique, List.map_map, same]
  exact unique

theorem mem_replaceTerminal {after : ReceiptRow} :
    after ∈ replaceTerminal rows principal key remaining ↔
      (∃ row ∈ rows, row.name = (principal, key) ∧ row.owner = none ∧ remaining = some after) ∨
        (after ∈ rows ∧ ¬ (after.name = (principal, key) ∧ after.owner = none)) := by
  unfold replaceTerminal
  simp only [List.mem_filterMap, ReceiptRow.named_iff]
  constructor
  · intro h
    obtain ⟨row, member, rewritten⟩ := h
    split at rewritten
    next both => exact Or.inl ⟨row, member, both.1, both.2, rewritten⟩
    next other =>
      cases rewritten
      exact Or.inr ⟨member, other⟩
  · intro h
    cases h with
    | inl replaced =>
      obtain ⟨row, member, named, owner, remains⟩ := replaced
      exact ⟨row, member, by rw [if_pos ⟨named, owner⟩, remains]⟩
    | inr kept => exact ⟨after, kept.1, by rw [if_neg kept.2]⟩

variable {persisted : Persisted}

theorem NamesUnique.expireKey {after : Persisted} (unique : NamesUnique persisted.receipts)
    (h : persisted.expireKey principal key now = .ok (after, remaining)) :
    NamesUnique after.receipts ∧ after.row principal key = remaining := by
  cases expireKey_cases h with
  | inl kept =>
    rw [kept.1]
    exact ⟨unique, kept.2.symm⟩
  | inr expired =>
    obtain ⟨row, found, owner, expires, same⟩ := expired
    obtain ⟨member, named⟩ := find?_row found
    subst same
    have names : ∀ other ∈ persisted.receipts, ∀ rewritten,
        (if other.named principal key ∧ other.owner = none then remaining else some other) =
          some rewritten → rewritten.name = other.name := by
      intro other _ rewritten replaced
      split at replaced
      next both =>
        subst replaced
        exact (expires.name.1.trans named).trans (ReceiptRow.named_iff.mp both.1).symm
      next =>
        cases replaced
        rfl
    have unique_after : NamesUnique (replaceTerminal persisted.receipts principal key remaining) :=
      unique.filterMap names
    refine ⟨unique_after, ?_⟩
    cases remains : remaining with
    | none =>
      apply find?_row_eq_none.mpr
      intro other other_member other_named
      have cases := mem_replaceTerminal.mp other_member
      cases cases with
      | inl replaced =>
        obtain ⟨_, _, _, _, impossible⟩ := replaced
        cases impossible
      | inr kept =>
        have same := unique.eq_of_mem kept.1 member (other_named.trans named.symm)
        exact kept.2 ⟨other_named, same ▸ owner⟩
    | some compacted =>
      subst remains
      have compacted_member : compacted ∈ replaceTerminal persisted.receipts principal key
          (some compacted) := mem_replaceTerminal.mpr (Or.inl ⟨row, member, named, owner, rfl⟩)
      have compacted_named := expires.name.1.trans named
      cases lookup : (replaceTerminal persisted.receipts principal key (some compacted)).find?
          (fun row ↦ row.named principal key) with
      | none => exact absurd compacted_named (find?_row_eq_none.mp lookup compacted compacted_member)
      | some other =>
        obtain ⟨other_member, other_named⟩ := find?_row lookup
        have same := unique_after.eq_of_mem other_member compacted_member
          (other_named.trans compacted_named.symm)
        exact lookup.trans (congrArg some same)

variable {config : StoreConfiguration}
variable {turn : ℕ}

theorem NamesUnique.insertPending {draw : ℕ} {normalized : Option NormalizedTransaction}
    {template : Option DependencyTemplate} (unique : NamesUnique persisted.receipts)
    (absent : persisted.row principal key = none) :
    NamesUnique (insertPending config persisted turn draw principal key normalized
      template).1.receipts := by
  have missing := find?_row_eq_none.mp absent
  change ((persisted.receipts ++ [_]).map ReceiptRow.name).Nodup
  rw [List.map_append, List.nodup_append]
  refine ⟨unique, List.nodup_singleton _, ?_⟩
  intro name member other last same
  obtain ⟨row, row_member, row_name⟩ := List.mem_map.mp member
  rw [List.map_singleton, List.mem_singleton] at last
  exact missing row row_member (row_name.trans (same.trans last))

variable {state after : Traced} {clock : Clock}

section

variable (unique : NamesUnique state.persisted.receipts)
include unique

theorem NamesUnique.transition
    (h : Transition config clock turn state after) : NamesUnique after.persisted.receipts := by
  cases h with
  | expire expired => exact (unique.expireKey expired).1
  | insert _ absent => exact unique.insertPending absent
  | release principal key owner => exact List.Nodup.sublist (List.filter_sublist.map _) unique
  | bind claim normalized =>
    apply NamesUnique.map unique
    intro row
    split <;> rfl
  | facts creatorFacts => exact unique
  | policy entry draw => exact unique
  | retract => exact List.Nodup.sublist (List.filter_sublist.map _) unique
  | execute executed creatorFacts receiptPages =>
    have same : executed.effected.receipts = state.persisted.receipts := by
      unfold ExecutedRow.effected terminalEffect
      split
      · rfl
      · split <;> rfl
    have rewritten : NamesUnique (executed.effected.receipts.map fun row ↦
        if row.ownedBy executed.claim.principal executed.claim.key executed.claim.owner then
          { row with receipt := executed.receipt, owner := none }
        else row) := by
      rw [same]
      apply NamesUnique.map unique
      intro row
      split <;> rfl
    exact rewritten

theorem NamesUnique.transitions
    (h : Relation.ReflTransGen (Transition config clock turn) state after) :
    NamesUnique after.persisted.receipts := by
  induction h with
  | refl => exact unique
  | tail _ step ih => exact ih.transition step

end

end Names

/-- Some transitions that draw no identifier, with the executions among them. -/
def Reaches (config : StoreConfiguration) (clock : Clock) (turn : ℕ)
    (executions : List Execution) (start after : Persisted) : Prop :=
  ∀ history draw, ReflTransGen (Transition config clock turn)
    ⟨start, history, draw⟩ ⟨after, history ++ executions, draw⟩

/-- Some transitions of an entry that has drawn nothing yet. -/
def ReachesDrawing (config : StoreConfiguration) (clock : Clock) (turn : ℕ)
    (executions : List Execution) (start after : Persisted) : Prop :=
  ∀ history, ∃ draw, ReflTransGen (Transition config clock turn)
    ⟨start, history, 0⟩ ⟨after, history ++ executions, draw⟩

section Reaches

variable {config : StoreConfiguration} {clock : Clock} {turn : ℕ}
variable {start middle after : Persisted} {executions later : List Execution}

theorem Reaches.refl (start : Persisted) : Reaches config clock turn [] start start := by
  intro history draw
  rw [List.append_nil]

theorem Reaches.trans (first : Reaches config clock turn executions start middle)
    (second : Reaches config clock turn later middle after) :
    Reaches config clock turn (executions ++ later) start after := by
  intro history draw
  rw [← List.append_assoc]
  exact (first history draw).trans (second (history ++ executions) draw)

theorem Reaches.drawing (h : Reaches config clock turn executions start after) :
    ReachesDrawing config clock turn executions start after :=
  fun history ↦ ⟨0, h history 0⟩

theorem ReachesDrawing.trans (first : ReachesDrawing config clock turn executions start middle)
    (second : Reaches config clock turn later middle after) :
    ReachesDrawing config clock turn (executions ++ later) start after := by
  intro history
  obtain ⟨draw, reached⟩ := first history
  rw [← List.append_assoc]
  exact ⟨draw, reached.trans (second (history ++ executions) draw)⟩

theorem Reaches.single
    (h : ∀ history draw, Transition config clock turn ⟨start, history, draw⟩ ⟨after, history, draw⟩) :
    Reaches config clock turn [] start after := by
  intro history draw
  rw [List.append_nil]
  exact .single (h history draw)

theorem Reaches.names (h : Reaches config clock turn executions start after)
    (unique : NamesUnique start.receipts) : NamesUnique after.receipts :=
  unique.transitions (h [] 0)

theorem ReachesDrawing.names (h : ReachesDrawing config clock turn executions start after)
    (unique : NamesUnique start.receipts) : NamesUnique after.receipts :=
  have ⟨_, reached⟩ := h []
  unique.transitions reached

theorem reaches_release (persisted : Persisted) (principal key owner : String) :
    Reaches config clock turn [] persisted (persisted.deleteOwned principal key owner) :=
  Reaches.single fun _ _ ↦ Transition.release principal key owner

theorem reaches_facts (persisted : Persisted) (creatorFacts : List CreatorRow) :
    Reaches config clock turn [] persisted { persisted with creatorFacts } :=
  Reaches.single fun _ _ ↦ Transition.facts creatorFacts

variable {persisted : Persisted}
variable {reading : ℕ}

theorem reaches_expireKey {expired : Persisted} {principal key : String}
    (h : persisted.expireKey principal key (clock reading) = .ok (expired, remaining)) :
    Reaches config clock turn [] persisted expired :=
  Reaches.single fun _ _ ↦ Transition.expire h

theorem instant_eq_ok (h : instant clock reading = .ok now) : now = clock reading := by
  unfold instant at h
  rw [check_bind_eq_ok] at h
  exact Except.pure_eq_ok_iff.mp h.2

theorem reaches_sweep {swept : Persisted} (h : persisted.sweep (clock reading) = .ok swept) :
    Reaches config clock turn [] persisted swept := by
  unfold Persisted.sweep at h
  generalize persisted.receipts = rows at h
  induction rows generalizing persisted with
  | nil =>
    cases h
    exact Reaches.refl _
  | cons row rows ih =>
    rw [List.foldlM_cons, Except.bind_eq_ok] at h
    obtain ⟨next, step, rest⟩ := h
    have first : Reaches config clock turn [] persisted next := by
      split at step
      · cases expired : persisted.expireKey row.principal row.key (clock reading) with
        | error message =>
          rw [expired] at step
          cases step
        | ok pair =>
          rw [expired] at step
          cases step
          exact reaches_expireKey expired
      · cases step
        exact Reaches.refl _
    exact first.trans (ih rest)

theorem reaches_writeFact {recorded : Persisted} {attempt : String} {member : ℕ}
    {fact : CreatorFact} (h : writeFact persisted attempt member fact = .ok recorded) :
    Reaches config clock turn [] persisted recorded := by
  unfold writeFact at h
  rw [check_bind_eq_ok] at h
  cases h.2
  exact reaches_facts persisted _

end Reaches

end Bdp.Transaction
