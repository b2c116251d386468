import Bdp.Transaction.Minimum
import Bdp.Transaction.ReceiptPages

/-!
# Page plans along runs

Every completed receipt has one page plan under its own URL, principal and key. A call cuts at most
one plan, and plans of different entries have different tokens.
-/

namespace Bdp.Transaction

open Relation

variable {config : StoreConfiguration} {clock : Clock} {turn : ℕ} {state after : Traced}

section Steps

theorem RowChange.core {old row : ReceiptRow} (h : RowChange clock old row) :
    row.receipt.core = old.receipt.core := by
  cases h with
  | compacted reading unowned expires =>
    cases expires with
    | compacted completed past compact =>
      obtain ⟨_, rfl⟩ := compactReceipt_eq_ok compact
      rfl
  | executed owned core terminal => exact core
  | _ => rfl

/-- The row that an execution leaves under its key. -/
def ExecutedRow.terminalRow {persisted : Persisted} (executed : ExecutedRow config persisted) :
    ReceiptRow := { executed.current with receipt := executed.receipt, owner := none }

/-- A step leaves the plans, or is an execution that adds the plan of its receipt. A receipt with
all its results was there before, or is the receipt of that execution. -/
theorem Transition.plans_cases (unique : NamesUnique state.persisted.receipts)
    (h : Transition config clock turn state after) :
    (after.history = state.history ∧ after.persisted.receiptPages = state.persisted.receiptPages ∧
        ∀ row ∈ after.persisted.receipts, ∀ results, row.receipt.available = some results →
          ∃ old ∈ state.persisted.receipts, old.receipt = row.receipt ∧ old.name = row.name) ∨
      ∃ executed : ExecutedRow config state.persisted,
        after.history = state.history ++ [executed.execution] ∧
          after.persisted.receiptPages = state.persisted.receiptPages ++
            pagePlan config turn executed.claim.principal executed.claim.key executed.receipt ∧
          ∀ row ∈ after.persisted.receipts,
            row ∈ state.persisted.receipts ∨ row = executed.terminalRow := by
  cases h with
  | @expire principal key reading expired remaining expiring =>
    refine Or.inl ⟨rfl, ?_⟩
    cases expireKey_cases expiring with
    | inl kept =>
      rw [kept.1]
      exact ⟨rfl, fun row member _ _ ↦ ⟨row, member, rfl, rfl⟩⟩
    | inr changed =>
      obtain ⟨old, found, _, expires, same⟩ := changed
      subst same
      refine ⟨rfl, ?_⟩
      intro row member results held
      cases mem_replaceTerminal.mp member with
      | inl replaced =>
        obtain ⟨_, _, _, _, remains⟩ := replaced
        subst remains
        cases expires with
        | compacted completed past compact =>
          obtain ⟨_, rfl⟩ := compactReceipt_eq_ok compact
          cases held
      | inr kept => exact ⟨row, kept.1, rfl, rfl⟩
  | @insert draw principal key normalized template le absent =>
    refine Or.inl ⟨rfl, rfl, ?_⟩
    intro row member results held
    cases List.mem_append.mp member with
    | inl kept => exact ⟨row, kept, rfl, rfl⟩
    | inr inserted =>
      rw [List.mem_singleton.mp inserted] at held
      cases held
  | bind claim normalized =>
    refine Or.inl ⟨rfl, rfl, ?_⟩
    intro row member results held
    obtain ⟨old, old_member, rewritten⟩ := List.mem_map.mp member
    refine ⟨old, old_member, ?_⟩
    split at rewritten <;> rw [← rewritten] <;> exact ⟨rfl, rfl⟩
  | execute executed creatorFacts receiptPages pages =>
    refine Or.inr ⟨executed, rfl, pages, ?_⟩
    intro row member
    change row ∈ executed.effected.receipts.map _ at member
    rw [executed.effected_receipts] at member
    obtain ⟨old, old_member, rewritten⟩ := List.mem_map.mp member
    split at rewritten
    next owned =>
      have same := executed.rewritten_eq unique old_member owned
      exact Or.inr (rewritten ▸ same ▸ rfl)
    next => exact Or.inl (rewritten ▸ old_member)
  | release principal key owner =>
    exact Or.inl ⟨rfl, rfl, fun row member _ _ ↦
      ⟨row, List.mem_of_mem_filter member, rfl, rfl⟩⟩
  | retract =>
    exact Or.inl ⟨rfl, rfl, fun row member _ _ ↦
      ⟨row, List.mem_of_mem_filter member, rfl, rfl⟩⟩
  | facts creatorFacts => exact Or.inl ⟨rfl, rfl, fun row member _ _ ↦ ⟨row, member, rfl, rfl⟩⟩
  | policy entry draw => exact Or.inl ⟨rfl, rfl, fun row member _ _ ↦ ⟨row, member, rfl, rfl⟩⟩

theorem ExecutedRow.receipt_behind {persisted : Persisted}
    (executed : ExecutedRow config persisted) :
    ∀ positions ∈ executed.receipt.disposition.positions,
      positions.1 ≤ executed.effected.position ∧
        ∀ effect ∈ positions.2, effect ≤ executed.effected.position := by
  unfold ExecutedRow.receipt ExecutedRow.effected
  cases executed.evaluation with
  | failed problem => simp [terminalEffect, Disposition.positions]
  | ok evaluated =>
    dsimp only [terminalEffect]
    split <;> simp [Disposition.positions]

theorem Transition.position_le (h : Transition config clock turn state after) :
    state.persisted.position ≤ after.persisted.position := by
  have counted := h.position.1
  have grown : emissions state.history ≤ emissions after.history := by
    cases h.effects_cases with
    | inl quiet => rw [quiet.1]
    | inr executing =>
      obtain ⟨executed, history, _⟩ := executing
      rw [history, emissions_append]
      exact Nat.le_add_right _ _
  omega

end Steps

/-- The URL of a receipt and its transaction are drawn together. -/
def Identified (config : StoreConfiguration) (id transaction : String) : Prop :=
  ∃ entry draw, id = config.scope ++ "receipts/" ++ config.uuid entry draw ∧
    transaction = config.uuid entry (draw + 1)

theorem Identified.eq {id transaction other : String} (h : Identified config id transaction)
    (same : Identified config id other) : transaction = other := by
  obtain ⟨entry, draw, url, drawn⟩ := h
  obtain ⟨entry', draw', url', drawn'⟩ := same
  have letters := congrArg String.toList (url.symm.trans url')
  simp only [String.toList_append] at letters
  obtain ⟨entries, draws⟩ := config.uuid_injective (String.ext (List.append_cancel_left letters))
  rw [drawn, drawn', entries, draws]

/-- What holds of the receipts and their plans in every state. -/
structure PageInvariant (config : StoreConfiguration) (state : Traced) : Prop where
  identified : ∀ row ∈ state.persisted.receipts,
    Identified config row.receipt.core.id row.receipt.core.transaction
  keyed : ∀ row ∈ state.persisted.receipts, row.receipt.core.idempotencyKey = row.key
  epochs : ∀ row ∈ state.persisted.receipts,
    row.receipt.core.scopeEpoch = state.persisted.epoch
  behind : ∀ row ∈ state.persisted.receipts, ∀ positions ∈ row.receipt.disposition.positions,
    positions.1 ≤ state.persisted.position ∧
      ∀ effect ∈ positions.2, effect ≤ state.persisted.position
  planned : ∀ row ∈ state.persisted.receipts, ∀ results,
    row.receipt.available = some results →
      ∃ plan ∈ state.persisted.receiptPages, plan.receipt = row.receipt.core.id ∧
        plan.principal = row.principal ∧ plan.key = row.key ∧ plan.entries = results.length
  executed : ∀ plan ∈ state.persisted.receiptPages, ∃ execution ∈ state.history,
    Identified config plan.receipt execution.transaction
  distinct : state.persisted.receiptPages.Pairwise fun earlier later ↦
    earlier.receipt ≠ later.receipt

namespace PageInvariant

theorem created (epoch : String) :
    PageInvariant config ⟨(TransactionStore.created epoch).persisted, [], 0⟩ where
  identified _ member := absurd member List.not_mem_nil
  keyed _ member := absurd member List.not_mem_nil
  epochs _ member := absurd member List.not_mem_nil
  behind _ member := absurd member List.not_mem_nil
  planned _ member := absurd member List.not_mem_nil
  executed _ member := absurd member List.not_mem_nil
  distinct := List.Pairwise.nil

variable {row : ReceiptRow}

theorem inserted_core (step : Transition config clock turn state after)
    (inserted : InsertedRow config turn state after row) :
    Identified config row.receipt.core.id row.receipt.core.transaction ∧
      row.receipt.core.idempotencyKey = row.key ∧
      row.receipt.core.scopeEpoch = state.persisted.epoch := by
  have appended := inserted.appended
  -- Every other transition leaves at most as many rows.
  have longer : after.persisted.receipts.length = state.persisted.receipts.length + 1 := by
    rw [appended, List.length_append, List.length_singleton]
  cases step with
  | @insert draw principal key normalized template le free =>
    have same := List.append_cancel_left appended
    rw [← List.singleton_inj.mp same]
    exact ⟨⟨turn, draw, rfl, rfl⟩, rfl, rfl⟩
  | @expire principal key reading expired remaining expiring =>
    cases expireKey_cases expiring with
    | inl kept =>
      dsimp only at longer
      rw [kept.1] at longer
      omega
    | inr changed =>
      obtain ⟨_, _, _, _, same⟩ := changed
      subst same
      have shorter := List.length_filterMap_le (fun other : ReceiptRow ↦
        if other.named principal key ∧ other.owner = none then remaining else some other)
        state.persisted.receipts
      exact absurd longer (by
        change (replaceTerminal _ _ _ _).length ≠ _
        unfold replaceTerminal
        omega)
  | release principal key owner =>
    have shorter := List.length_filter_le (fun row : ReceiptRow ↦ !row.ownedBy principal key owner)
      state.persisted.receipts
    exact absurd longer (by
      change (List.filter _ _).length ≠ _
      omega)
  | retract =>
    have shorter := List.length_filter_le (fun row : ReceiptRow ↦ row.owner == none)
      state.persisted.receipts
    exact absurd longer (by
      dsimp only
      omega)
  | bind claim normalized =>
    exact absurd longer (by
      change (List.map _ _).length ≠ _
      rw [List.length_map]
      omega)
  | facts creatorFacts => exact absurd longer (by dsimp only; omega)
  | policy entry draw => exact absurd longer (by dsimp only; omega)
  | execute executed creatorFacts receiptPages =>
    exact absurd longer (by
      change (List.map _ executed.effected.receipts).length ≠ _
      rw [List.length_map, executed.effected_receipts]
      omega)

theorem rows_core (h : PageInvariant config state) (key : KeyInvariant config turn state)
    (step : Transition config clock turn state after) (member : row ∈ after.persisted.receipts) :
    Identified config row.receipt.core.id row.receipt.core.transaction ∧
      row.receipt.core.idempotencyKey = row.key ∧
      row.receipt.core.scopeEpoch = after.persisted.epoch := by
  rw [step.position.2]
  cases step.row_origin key.unique member with
  | inl kept =>
    obtain ⟨old, old_member, change⟩ := kept
    have same_key : row.key = old.key := congrArg Prod.snd change.name
    rw [change.core, same_key]
    exact ⟨h.identified old old_member, h.keyed old old_member, h.epochs old old_member⟩
  | inr inserted => exact inserted_core step inserted

theorem rows_behind (h : PageInvariant config state)
    (step : Transition config clock turn state after) (member : row ∈ after.persisted.receipts) :
    ∀ positions ∈ row.receipt.disposition.positions,
      positions.1 ≤ after.persisted.position ∧
        ∀ effect ∈ positions.2, effect ≤ after.persisted.position := by
  have grown := step.position_le
  have kept {old : ReceiptRow} (old_member : old ∈ state.persisted.receipts)
      (same : row.receipt.disposition.positions = old.receipt.disposition.positions) :
      ∀ positions ∈ row.receipt.disposition.positions,
        positions.1 ≤ after.persisted.position ∧
          ∀ effect ∈ positions.2, effect ≤ after.persisted.position := by
    rw [same]
    intro positions held
    obtain ⟨required, effects⟩ := h.behind old old_member positions held
    exact ⟨required.trans grown, fun effect some ↦ (effects effect some).trans grown⟩
  cases step with
  | @expire principal key reading expired remaining expiring =>
    cases expireKey_cases expiring with
    | inl unchanged => exact kept (unchanged.1 ▸ member) rfl
    | inr changed =>
      obtain ⟨old, found, _, expires, same⟩ := changed
      subst same
      cases mem_replaceTerminal.mp member with
      | inl replaced =>
        obtain ⟨_, _, _, _, remains⟩ := replaced
        subst remains
        exact kept (find?_row found).1 expires.positions
      | inr present => exact kept present.1 rfl
  | @insert draw principal key normalized template le absent =>
    cases List.mem_append.mp member with
    | inl present => exact kept present rfl
    | inr inserted =>
      rw [List.mem_singleton.mp inserted]
      exact fun _ positions ↦ nomatch positions
  | release principal key owner => exact kept (List.mem_of_mem_filter member) rfl
  | bind claim normalized =>
    obtain ⟨old, old_member, rewritten⟩ := List.mem_map.mp member
    apply kept old_member
    split at rewritten <;> rw [← rewritten]
  | facts creatorFacts => exact kept member rfl
  | policy entry draw => exact kept member rfl
  | retract => exact kept (List.mem_of_mem_filter member) rfl
  | execute executed creatorFacts receiptPages =>
    change row ∈ executed.effected.receipts.map _ at member
    rw [executed.effected_receipts] at member
    obtain ⟨old, old_member, rewritten⟩ := List.mem_map.mp member
    split at rewritten
    · rw [← rewritten]
      exact executed.receipt_behind
    · exact kept old_member (by rw [← rewritten])

variable {plan : ReceiptPagePlan} {principal : String} {receipt : Receipt}

theorem mem_pagePlan {key : String} (h : plan ∈ pagePlan config turn principal key receipt) :
    plan.receipt = receipt.core.id ∧ plan.principal = principal ∧ plan.key = key := by
  unfold pagePlan at h
  split at h
  · rw [List.mem_singleton] at h
    rw [h]
    exact ⟨rfl, rfl, rfl⟩
  · cases h

variable {results : List ResultEntry}

theorem pagePlan_available {key : String} (h : receipt.available = some results) :
    ∃ plan ∈ pagePlan config turn principal key receipt, plan.entries = results.length := by
  unfold Receipt.available at h
  split at h
  next completed =>
    cases h
    unfold pagePlan
    rw [completed]
    exact ⟨_, List.mem_singleton_self _, rfl⟩
  next => cases h

section

variable (h : PageInvariant config state)
include h

section

variable (key : KeyInvariant config turn state)
include key

section

variable (step : Transition config clock turn state after)
include step

theorem rows_planned
    (member : row ∈ after.persisted.receipts) (held : row.receipt.available = some results) :
    ∃ plan ∈ after.persisted.receiptPages, plan.receipt = row.receipt.core.id ∧
      plan.principal = row.principal ∧ plan.key = row.key ∧ plan.entries = results.length := by
  cases step.plans_cases key.unique with
  | inl quiet =>
    obtain ⟨_, pages, origin⟩ := quiet
    obtain ⟨old, old_member, same, name⟩ := origin row member results held
    rw [← same] at held
    obtain ⟨plan, plan_member, url, principal, named, counted⟩ := h.planned old old_member _ held
    rw [pages]
    exact ⟨plan, plan_member, url.trans (by rw [same]),
      principal.trans (congrArg Prod.fst name), named.trans (congrArg Prod.snd name), counted⟩
  | inr executing =>
    obtain ⟨executed, _, pages, origin⟩ := executing
    rw [pages]
    cases origin row member with
    | inl old =>
      obtain ⟨plan, plan_member, planned⟩ := h.planned row old _ held
      exact ⟨plan, List.mem_append_left _ plan_member, planned⟩
    | inr terminal =>
      subst terminal
      obtain ⟨_, name⟩ := find?_row executed.found
      obtain ⟨plan, plan_member, counted⟩ : ∃ plan ∈ pagePlan config turn executed.claim.principal
          executed.claim.key executed.receipt, plan.entries = results.length :=
        pagePlan_available held
      obtain ⟨url, principal, named⟩ := mem_pagePlan plan_member
      exact ⟨plan, List.mem_append_right _ plan_member, url,
        principal.trans (congrArg Prod.fst name).symm,
        named.trans (congrArg Prod.snd name).symm, counted⟩

theorem plans_executed (member : plan ∈ after.persisted.receiptPages) :
    ∃ execution ∈ after.history, Identified config plan.receipt execution.transaction := by
  cases step.plans_cases key.unique with
  | inl quiet =>
    rw [quiet.1]
    exact h.executed plan (quiet.2.1 ▸ member)
  | inr executing =>
    obtain ⟨executed, history, pages, _⟩ := executing
    rw [pages] at member
    rw [history]
    cases List.mem_append.mp member with
    | inl before =>
      obtain ⟨execution, earlier, identified⟩ := h.executed plan before
      exact ⟨execution, List.mem_append_left _ earlier, identified⟩
    | inr last =>
      refine ⟨executed.execution, List.mem_append_right _ (List.mem_singleton_self _), ?_⟩
      rw [(mem_pagePlan last).1]
      change Identified config executed.receipt.core.id executed.receipt.core.transaction
      rw [executed.receipt_core]
      exact h.identified _ (find?_row executed.found).1

theorem plans_distinct : after.persisted.receiptPages.Pairwise fun earlier later ↦
      earlier.receipt ≠ later.receipt := by
  cases step.plans_cases key.unique with
  | inl quiet =>
    rw [quiet.2.1]
    exact h.distinct
  | inr executing =>
    obtain ⟨executed, _, pages, _⟩ := executing
    rw [pages, List.pairwise_append]
    refine ⟨h.distinct, ?_, ?_⟩
    · unfold pagePlan
      split
      · exact List.pairwise_singleton _ _
      · exact List.Pairwise.nil
    · intro earlier before later last same
      -- The earlier plan belongs to an execution, and the owned row was never executed.
      obtain ⟨current_member, _⟩ := find?_row executed.found
      obtain ⟨execution, executed_member, identified⟩ := h.executed earlier before
      rw [same, (mem_pagePlan last).1, executed.receipt_core] at identified
      have owned : executed.current.owner ≠ none := by
        rw [executed.owned]
        nofun
      exact key.unexecuted _ current_member owned execution executed_member
        (identified.eq (h.identified _ current_member))

theorem transition : PageInvariant config after where
  identified _ member := (h.rows_core key step member).1
  keyed _ member := (h.rows_core key step member).2.1
  epochs _ member := (h.rows_core key step member).2.2
  behind _ member := h.rows_behind step member
  planned _ member _ held := h.rows_planned key step member held
  executed _ member := h.plans_executed key step member
  distinct := h.plans_distinct key step

end

theorem transitions (steps : ReflTransGen (Transition config clock turn) state after) :
    PageInvariant config after := by
  induction steps with
  | refl => exact h
  | tail before step ih => exact ih.transition (key.transitions before) step

end

end

theorem run {epoch : String} {history : List Execution} {store : TransactionStore}
    (run : TransactionStore.Run config (.created epoch) history store) :
    PageInvariant config ⟨store.persisted, history, 0⟩ := by
  induction run with
  | refl => exact created epoch
  | @called store history faults clock request before ih =>
    have key := KeyInvariant.run before
    have entered : TransactionStore.Enters config clock store.turn _ store _ :=
      TransactionStore.call_enters key.unique faults request
    obtain ⟨draw, steps⟩ := entered.reaches history
    have reached := ih.transitions key steps
    exact ⟨reached.identified, reached.keyed, reached.epochs, reached.behind, reached.planned,
      reached.executed, reached.distinct⟩

end PageInvariant

end Bdp.Transaction
