import Bdp.Transaction.Calls

/-!
# Keys and their receipts

The invariant of the receipt rows and of the executions: one row for each key, fresh transactions,
no execution of a pending row, and at most one completed execution of a key, after which nothing of
the key executes.
-/

namespace Bdp.Transaction

open Relation
open List (mem_append mem_singleton mem_map not_mem_nil)

variable {config : StoreConfiguration} {clock : Clock} {turn : ℕ} {state after : Traced}

section Rows

/-- What a transition makes of a row that it does not forget. -/
inductive RowChange (clock : Clock) (old : ReceiptRow) : ReceiptRow → Prop where
  | kept : RowChange clock old old
  | bound (identity witnesses : String) (dependency : Option DependencyTemplate)
      (owned : old.owner ≠ none) :
      RowChange clock old { old with identity, witnesses, dependency }
  | compacted {remaining : ReceiptRow} (reading : ℕ) (unowned : old.owner = none)
      (expires : Expires (clock reading) old (some remaining)) : RowChange clock old remaining
  | executed {receipt : Receipt} (owned : old.owner ≠ none) (core : receipt.core = old.receipt.core)
      (terminal : receipt.disposition ≠ .pending) :
      RowChange clock old { old with receipt, owner := none }

namespace RowChange

variable {old row : ReceiptRow}

section

variable (h : RowChange clock old row)
include h

theorem name : row.name = old.name := by
  cases h with
  | compacted reading unowned expires => exact expires.name.1
  | _ => rfl

theorem transaction : row.receipt.core.transaction = old.receipt.core.transaction := by
  cases h with
  | compacted reading unowned expires =>
    cases expires with
    | compacted completed past compact =>
      obtain ⟨_, rfl⟩ := compactReceipt_eq_ok compact
      rfl
  | executed owned core terminal => exact congrArg ReceiptCore.transaction core
  | _ => rfl

theorem owned (owned : row.owner ≠ none) : old.owner ≠ none ∧ row.receipt = old.receipt := by
  cases h with
  | compacted reading unowned expires => exact absurd (expires.name.2.trans unowned) owned
  | executed => exact absurd rfl owned
  | kept => exact ⟨owned, rfl⟩
  | bound => exact ⟨owned, rfl⟩

end

theorem isCompleted_compacted {now : ℤ} (h : Expires now old (some row)) :
    row.receipt.disposition.isCompleted = true := by
  cases h with
  | compacted completed past compact =>
    obtain ⟨_, rfl⟩ := compactReceipt_eq_ok compact
    rfl

theorem unowned (h : RowChange clock old row) (unowned : old.owner = none) :
    row.owner = none ∧ (old.receipt.disposition.isCompleted = true →
      row.receipt.disposition.isCompleted = true) := by
  cases h with
  | kept => exact ⟨unowned, id⟩
  | bound _ _ _ owned => exact absurd unowned owned
  | compacted reading _ expires =>
    exact ⟨expires.name.2.trans unowned, fun _ ↦ isCompleted_compacted expires⟩
  | executed owned => exact absurd unowned owned

end RowChange

/-- The row that an admission inserts. -/
structure InsertedRow (config : StoreConfiguration) (turn : ℕ) (state after : Traced)
    (row : ReceiptRow) : Prop where
  drawn : ∃ draw, state.draw ≤ draw ∧ after.draw = draw + 3 ∧
    row.receipt.core.transaction = config.uuid turn (draw + 1)
  owned : row.owner ≠ none
  pending : row.receipt.disposition = .pending
  appended : after.persisted.receipts = state.persisted.receipts ++ [row]
  absent : ∀ other ∈ state.persisted.receipts, other.name ≠ row.name

variable {persisted : Persisted}

section

variable (executed : ExecutedRow config persisted)
include executed

theorem ExecutedRow.receipt_core : executed.receipt.core = executed.current.receipt.core := by
  unfold ExecutedRow.receipt terminalEffect
  split
  · rfl
  · split <;> rfl

theorem ExecutedRow.receipt_terminal : executed.receipt.disposition ≠ .pending := by
  unfold ExecutedRow.receipt terminalEffect
  split
  · nofun
  · split <;> nofun

theorem ExecutedRow.effected_receipts : executed.effected.receipts = persisted.receipts := by
  unfold ExecutedRow.effected terminalEffect
  split
  · rfl
  · split <;> rfl

theorem ExecutedRow.effect_cases : executed.effected.groups = persisted.groups ∨
      ∃ evaluated, executed.receipt.disposition.isCompleted = true ∧
        executed.effected.groups = persisted.groups ++
          [{ position := persisted.position + 1
             body := transactionGroup persisted executed.current.receipt.core evaluated }] := by
  unfold ExecutedRow.effected ExecutedRow.receipt terminalEffect
  split
  · exact Or.inl rfl
  next evaluated _ =>
    split
    · exact Or.inl rfl
    · exact Or.inr ⟨evaluated, rfl, rfl⟩

end

theorem ReceiptRow.ownedBy_iff {row : ReceiptRow} {principal key owner : String} :
    row.ownedBy principal key owner = true ↔
      row.name = (principal, key) ∧ row.owner = some owner := by
  simp [ownedBy, ReceiptRow.named_iff]

theorem ExecutedRow.rewritten_eq (executed : ExecutedRow config persisted)
    (unique : NamesUnique persisted.receipts) {row : ReceiptRow} (member : row ∈ persisted.receipts)
    (owned : row.ownedBy executed.claim.principal executed.claim.key executed.claim.owner = true) :
    row = executed.current := by
  obtain ⟨current_member, current_name⟩ := find?_row executed.found
  obtain ⟨name, _⟩ := ReceiptRow.ownedBy_iff.mp owned
  exact unique.eq_of_mem member current_member (name.trans current_name.symm)

theorem ExecutedRow.rowChange (executed : ExecutedRow config persisted)
    (unique : NamesUnique persisted.receipts) {row : ReceiptRow}
    (member : row ∈ persisted.receipts) :
    RowChange clock row
      (if row.ownedBy executed.claim.principal executed.claim.key executed.claim.owner then
        { row with receipt := executed.receipt, owner := none }
      else row) := by
  split
  next owned =>
    have same := executed.rewritten_eq unique member owned
    obtain ⟨_, owner⟩ := ReceiptRow.ownedBy_iff.mp owned
    have some_owner : row.owner ≠ none := by
      rw [owner]
      nofun
    exact .executed some_owner (executed.receipt_core.trans (same ▸ rfl)) executed.receipt_terminal
  next => exact .kept

section

variable (unique : NamesUnique state.persisted.receipts)
include unique

theorem Transition.row_origin (h : Transition config clock turn state after) {row : ReceiptRow}
    (member : row ∈ after.persisted.receipts) :
    (∃ old ∈ state.persisted.receipts, RowChange clock old row) ∨
      InsertedRow config turn state after row := by
  cases h with
  | @expire principal key reading expired remaining expiring =>
    cases expireKey_cases expiring with
    | inl kept =>
      rw [kept.1] at member
      exact Or.inl ⟨row, member, .kept⟩
    | inr changed =>
      obtain ⟨old, found, unowned, expires, same⟩ := changed
      subst same
      obtain ⟨old_member, old_name⟩ := find?_row found
      cases mem_replaceTerminal.mp member with
      | inl replaced =>
        obtain ⟨_, _, _, _, remains⟩ := replaced
        subst remains
        exact Or.inl ⟨old, old_member, .compacted reading unowned expires⟩
      | inr kept => exact Or.inl ⟨row, kept.1, .kept⟩
  | @insert draw principal key normalized template le absent =>
    cases mem_append.mp member with
    | inl kept => exact Or.inl ⟨row, kept, .kept⟩
    | inr inserted =>
      rw [mem_singleton] at inserted
      subst inserted
      exact Or.inr ⟨⟨draw, le, rfl, rfl⟩, nofun, rfl, rfl, find?_row_eq_none.mp absent⟩
  | release principal key owner => exact Or.inl ⟨row, List.mem_of_mem_filter member, .kept⟩
  | bind claim normalized =>
    obtain ⟨old, old_member, rewritten⟩ := mem_map.mp member
    refine Or.inl ⟨old, old_member, ?_⟩
    split at rewritten
    next owned =>
      obtain ⟨_, owner⟩ := ReceiptRow.ownedBy_iff.mp owned
      rw [← rewritten]
      refine .bound _ _ _ ?_
      rw [owner]
      nofun
    next =>
      rw [← rewritten]
      exact .kept
  | facts creatorFacts => exact Or.inl ⟨row, member, .kept⟩
  | policy entry draw => exact Or.inl ⟨row, member, .kept⟩
  | retract => exact Or.inl ⟨row, List.mem_of_mem_filter member, .kept⟩
  | execute executed creatorFacts receiptPages =>
    change row ∈ executed.effected.receipts.map _ at member
    rw [executed.effected_receipts] at member
    obtain ⟨old, old_member, rewritten⟩ := mem_map.mp member
    rw [← rewritten]
    exact Or.inl ⟨old, old_member, executed.rowChange unique old_member⟩

theorem Transition.terminal_row (h : Transition config clock turn state after) {row : ReceiptRow}
    (member : row ∈ state.persisted.receipts) (unowned : row.owner = none) :
    row ∈ after.persisted.receipts ∨ ∃ reading remaining,
      Expires (clock reading) row remaining ∧
        ∀ compact, remaining = some compact → compact ∈ after.persisted.receipts := by
  cases h with
  | @expire principal key reading expired remaining expiring =>
    cases expireKey_cases expiring with
    | inl kept =>
      rw [kept.1]
      exact Or.inl member
    | inr changed =>
      obtain ⟨old, found, old_unowned, expires, same⟩ := changed
      subst same
      obtain ⟨old_member, old_name⟩ := find?_row found
      by_cases named : row.name = (principal, key)
      · have same := unique.eq_of_mem member old_member (named.trans old_name.symm)
        subst same
        refine Or.inr ⟨reading, remaining, expires, ?_⟩
        intro compact remains
        exact mem_replaceTerminal.mpr (Or.inl ⟨row, member, named, unowned, remains⟩)
      · exact Or.inl (mem_replaceTerminal.mpr (Or.inr ⟨member, fun both ↦ named both.1⟩))
  | insert le absent => exact Or.inl (List.mem_append_left _ member)
  | release principal key owner =>
    have foreign : (!row.ownedBy principal key owner) = true := by
      simp [ReceiptRow.ownedBy, unowned]
    exact Or.inl (List.mem_filter.mpr ⟨member, foreign⟩)
  | bind claim normalized =>
    refine Or.inl (mem_map.mpr ⟨row, member, if_neg ?_⟩)
    simp [ReceiptRow.ownedBy, unowned]
  | facts creatorFacts => exact Or.inl member
  | policy entry draw => exact Or.inl member
  | retract =>
    have terminal : (row.owner == none) = true := by simp [unowned]
    exact Or.inl (List.mem_filter.mpr ⟨member, terminal⟩)
  | execute executed creatorFacts receiptPages =>
    change row ∈ executed.effected.receipts.map _ ∨ _
    rw [executed.effected_receipts]
    refine Or.inl (mem_map.mpr ⟨row, member, if_neg ?_⟩)
    simp [ReceiptRow.ownedBy, unowned]

end

end Rows

/-- An identifier that was drawn before a draw of an entry. -/
def Drawn (config : StoreConfiguration) (turn draw : ℕ) (text : String) : Prop :=
  ∃ earlier index, text = config.uuid earlier index ∧
    (earlier < turn ∨ (earlier = turn ∧ index < draw))

variable {text : String} {draw : ℕ}

section

variable (h : Drawn config turn draw text)
include h

theorem Drawn.mono {draw' : ℕ} (le : draw ≤ draw') : Drawn config turn draw' text := by
  obtain ⟨earlier, index, same, before⟩ := h
  exact ⟨earlier, index, same, before.imp_right fun here ↦ ⟨here.1, here.2.trans_le le⟩⟩

theorem Drawn.next : Drawn config (turn + 1) 0 text := by
  obtain ⟨earlier, index, same, before⟩ := h
  exact ⟨earlier, index, same, Or.inl (by omega)⟩

theorem Drawn.ne_uuid {index : ℕ} (le : draw ≤ index) : text ≠ config.uuid turn index := by
  obtain ⟨earlier, index', same, before⟩ := h
  intro equal
  obtain ⟨turns, draws⟩ := config.uuid_injective (same.symm.trans equal)
  omega

end

structure KeyInvariant (config : StoreConfiguration) (turn : ℕ) (state : Traced) : Prop where
  unique : NamesUnique state.persisted.receipts
  drawn : ∀ row ∈ state.persisted.receipts,
    Drawn config turn state.draw row.receipt.core.transaction
  distinct : ∀ row ∈ state.persisted.receipts, ∀ other ∈ state.persisted.receipts,
    row.receipt.core.transaction = other.receipt.core.transaction → row.name = other.name
  pending : ∀ row ∈ state.persisted.receipts, row.owner ≠ none →
    row.receipt.disposition = .pending
  unexecuted : ∀ row ∈ state.persisted.receipts, row.owner ≠ none →
    ∀ execution ∈ state.history, execution.transaction ≠ row.receipt.core.transaction
  executed : ∀ execution ∈ state.history, Drawn config turn state.draw execution.transaction
  completed : ∀ execution ∈ state.history, execution.completed = true →
    ∃ row ∈ state.persisted.receipts, row.name = execution.name ∧ row.owner = none ∧
      row.receipt.disposition.isCompleted = true ∧
      row.receipt.core.transaction = execution.transaction
  ordered : state.history.Pairwise fun earlier later ↦
    earlier.completed = true → later.name ≠ earlier.name
  groups : ∀ group ∈ state.persisted.groups, ∃ execution ∈ state.history,
    execution.completed = true ∧ execution.transaction = group.body.transaction

namespace KeyInvariant

theorem created (epoch : String) :
    KeyInvariant config 0 ⟨(TransactionStore.created epoch).persisted, [], 0⟩ where
  unique := List.nodup_nil
  drawn _ member := absurd member not_mem_nil
  distinct _ member := absurd member not_mem_nil
  pending _ member := absurd member not_mem_nil
  unexecuted _ member := absurd member not_mem_nil
  executed _ member := absurd member not_mem_nil
  completed _ member := absurd member not_mem_nil
  ordered := List.Pairwise.nil
  groups _ member := absurd member not_mem_nil

theorem next (h : KeyInvariant config turn state) :
    KeyInvariant config (turn + 1) ⟨state.persisted, state.history, 0⟩ :=
  { h with
    drawn := fun row member ↦ (h.drawn row member).next
    executed := fun execution member ↦ (h.executed execution member).next }

theorem draw_le (step : Transition config clock turn state after) : state.draw ≤ after.draw := by
  cases step with
  | insert le absent => exact le.trans (Nat.le_add_right _ 3)
  | _ => exact le_rfl

variable {row : ReceiptRow}

section

variable (h : KeyInvariant config turn state)
include h

section

variable (step : Transition config clock turn state after)
include step

theorem row_drawn (member : row ∈ after.persisted.receipts) :
    Drawn config turn after.draw row.receipt.core.transaction := by
  cases step.row_origin h.unique member with
  | inl kept =>
    obtain ⟨old, old_member, change⟩ := kept
    rw [change.transaction]
    exact (h.drawn old old_member).mono (draw_le step)
  | inr inserted =>
    obtain ⟨draw, le, last, same⟩ := inserted.drawn
    exact ⟨turn, draw + 1, same, Or.inr ⟨rfl, by omega⟩⟩

theorem rows_distinct {other : ReceiptRow}
    (member : row ∈ after.persisted.receipts) (other_member : other ∈ after.persisted.receipts)
    (same : row.receipt.core.transaction = other.receipt.core.transaction) :
    row.name = other.name := by
  have fresh {kept inserted old : ReceiptRow} (old_member : old ∈ state.persisted.receipts)
      (change : RowChange clock old kept) (new : InsertedRow config turn state after inserted) :
      kept.receipt.core.transaction ≠ inserted.receipt.core.transaction := by
    obtain ⟨draw, le, _, drawn⟩ := new.drawn
    rw [change.transaction, drawn]
    exact (h.drawn old old_member).ne_uuid (by omega)
  cases step.row_origin h.unique member with
  | inl kept =>
    obtain ⟨old, old_member, change⟩ := kept
    cases step.row_origin h.unique other_member with
    | inl other_kept =>
      obtain ⟨other_old, other_old_member, other_change⟩ := other_kept
      rw [change.name, other_change.name]
      rw [change.transaction, other_change.transaction] at same
      exact h.distinct old old_member other_old other_old_member same
    | inr inserted => exact absurd same (fresh old_member change inserted)
  | inr inserted =>
    cases step.row_origin h.unique other_member with
    | inl other_kept =>
      obtain ⟨other_old, other_old_member, other_change⟩ := other_kept
      exact absurd same.symm (fresh other_old_member other_change inserted)
    | inr other_inserted =>
      -- A transition inserts one row, so two inserted rows are the same.
      rw [inserted.appended] at other_member
      cases mem_append.mp other_member with
      | inl old => exact absurd rfl (other_inserted.absent other old)
      | inr last => rw [mem_singleton.mp last]

theorem rows_pending (member : row ∈ after.persisted.receipts) (owned : row.owner ≠ none) :
    row.receipt.disposition = .pending := by
  cases step.row_origin h.unique member with
  | inl kept =>
    obtain ⟨old, old_member, change⟩ := kept
    obtain ⟨was_owned, same⟩ := change.owned owned
    rw [same]
    exact h.pending old old_member was_owned
  | inr inserted => exact inserted.pending

end

end

theorem history_cases (step : Transition config clock turn state after) :
    (after.history = state.history ∧ after.persisted.groups = state.persisted.groups) ∨
      ∃ executed : ExecutedRow config state.persisted,
        after.history = state.history ++ [executed.execution] ∧
          after.persisted.receipts = state.persisted.receipts.map (fun row ↦
            if row.ownedBy executed.claim.principal executed.claim.key executed.claim.owner then
              { row with receipt := executed.receipt, owner := none }
            else row) ∧
          after.persisted.groups = executed.effected.groups := by
  cases step with
  | execute executed creatorFacts receiptPages =>
    refine Or.inr ⟨executed, rfl, ?_, rfl⟩
    change executed.effected.receipts.map _ = _
    rw [executed.effected_receipts]
  | @expire principal key reading expired remaining expiring =>
    refine Or.inl ⟨rfl, ?_⟩
    cases expireKey_cases expiring with
    | inl kept => rw [kept.1]
    | inr changed =>
      obtain ⟨_, _, _, _, same⟩ := changed
      rw [same]
  | _ => exact Or.inl ⟨rfl, rfl⟩

variable {execution : Execution}

section

variable (h : KeyInvariant config turn state)
include h

section

variable (step : Transition config clock turn state after)
include step

theorem rows_unexecuted (member : row ∈ after.persisted.receipts) (owned : row.owner ≠ none)
    (executed_member : execution ∈ after.history) :
    execution.transaction ≠ row.receipt.core.transaction := by
  cases history_cases step with
  | inl quiet =>
    rw [quiet.1] at executed_member
    cases step.row_origin h.unique member with
    | inl kept =>
      obtain ⟨old, old_member, change⟩ := kept
      obtain ⟨was_owned, same⟩ := change.owned owned
      rw [same]
      exact h.unexecuted old old_member was_owned execution executed_member
    | inr inserted =>
      obtain ⟨draw, le, _, drawn⟩ := inserted.drawn
      rw [drawn]
      exact (h.executed execution executed_member).ne_uuid (by omega)
  | inr executing =>
    obtain ⟨executed, history, receipts, _⟩ := executing
    rw [receipts] at member
    obtain ⟨old, old_member, rewritten⟩ := mem_map.mp member
    split at rewritten
    next =>
      rw [← rewritten] at owned
      exact absurd rfl owned
    next foreign =>
      subst rewritten
      rw [history] at executed_member
      cases mem_append.mp executed_member with
      | inl earlier => exact h.unexecuted old old_member owned execution earlier
      | inr last =>
        rw [mem_singleton.mp last]
        intro same
        obtain ⟨current_member, current_name⟩ := find?_row executed.found
        have core : executed.current.receipt.core.transaction = old.receipt.core.transaction := by
          rw [← executed.receipt_core]
          exact same
        have names := h.distinct _ current_member old old_member core
        have current := h.unique.eq_of_mem current_member old_member names
        rw [← current] at foreign
        exact foreign (ReceiptRow.ownedBy_iff.mpr ⟨current_name, executed.owned⟩)

theorem history_drawn (member : execution ∈ after.history) :
    Drawn config turn after.draw execution.transaction := by
  cases history_cases step with
  | inl quiet =>
    rw [quiet.1] at member
    exact (h.executed execution member).mono (draw_le step)
  | inr executing =>
    obtain ⟨executed, history, _, _⟩ := executing
    rw [history] at member
    cases mem_append.mp member with
    | inl earlier => exact (h.executed execution earlier).mono (draw_le step)
    | inr last =>
      rw [mem_singleton.mp last]
      change Drawn config turn after.draw executed.receipt.core.transaction
      rw [executed.receipt_core]
      exact (h.drawn _ (find?_row executed.found).1).mono (draw_le step)

theorem completed_row (member : row ∈ state.persisted.receipts) (unowned : row.owner = none)
    (completed : row.receipt.disposition.isCompleted = true) :
    ∃ later ∈ after.persisted.receipts, later.name = row.name ∧ later.owner = none ∧
      later.receipt.disposition.isCompleted = true ∧
      later.receipt.core.transaction = row.receipt.core.transaction := by
  cases step.terminal_row h.unique member unowned with
  | inl kept => exact ⟨row, kept, rfl, unowned, completed, rfl⟩
  | inr expired =>
    obtain ⟨reading, remaining, expires, kept⟩ := expired
    cases remaining with
    | none =>
      cases expires with
      | forgotten failed past =>
        rw [failed] at completed
        cases completed
    | some compact =>
      have change : RowChange clock row compact := .compacted reading unowned expires
      exact ⟨compact, kept compact rfl, change.name, (change.unowned unowned).1,
        (change.unowned unowned).2 completed, change.transaction⟩

theorem completed_executions
    (member : execution ∈ after.history) (completed : execution.completed = true) :
    ∃ row ∈ after.persisted.receipts, row.name = execution.name ∧ row.owner = none ∧
      row.receipt.disposition.isCompleted = true ∧
      row.receipt.core.transaction = execution.transaction := by
  have earlier (before : execution ∈ state.history) :
      ∃ row ∈ after.persisted.receipts, row.name = execution.name ∧ row.owner = none ∧
        row.receipt.disposition.isCompleted = true ∧
        row.receipt.core.transaction = execution.transaction := by
    obtain ⟨row, row_member, name, unowned, row_completed, transaction⟩ :=
      h.completed execution before completed
    obtain ⟨later, later_member, later_name, later_unowned, later_completed, later_transaction⟩ :=
      h.completed_row step row_member unowned row_completed
    exact ⟨later, later_member, later_name.trans name, later_unowned, later_completed,
      later_transaction.trans transaction⟩
  cases history_cases step with
  | inl quiet => exact earlier (quiet.1 ▸ member)
  | inr executing =>
    obtain ⟨executed, history, receipts, _⟩ := executing
    rw [history] at member
    cases mem_append.mp member with
    | inl before => exact earlier before
    | inr last =>
      have same := mem_singleton.mp last
      subst same
      obtain ⟨current_member, current_name⟩ := find?_row executed.found
      have owned := ReceiptRow.ownedBy_iff.mpr ⟨current_name, executed.owned⟩
      refine ⟨{ executed.current with receipt := executed.receipt, owner := none }, ?_,
        current_name, rfl, completed, rfl⟩
      rw [receipts]
      exact mem_map.mpr ⟨executed.current, current_member, if_pos owned⟩

theorem history_ordered : after.history.Pairwise fun earlier later ↦
      earlier.completed = true → later.name ≠ earlier.name := by
  cases history_cases step with
  | inl quiet =>
    rw [quiet.1]
    exact h.ordered
  | inr executing =>
    obtain ⟨executed, history, _, _⟩ := executing
    rw [history, List.pairwise_append]
    refine ⟨h.ordered, List.pairwise_singleton _ _, ?_⟩
    intro earlier member later last completed same
    rw [mem_singleton.mp last] at same
    obtain ⟨current_member, current_name⟩ := find?_row executed.found
    obtain ⟨row, row_member, name, unowned, _, _⟩ := h.completed earlier member completed
    -- The row of the completed execution would be the owned row.
    have current := h.unique.eq_of_mem row_member current_member
      ((name.trans same.symm).trans current_name.symm)
    rw [current, executed.owned] at unowned
    cases unowned

theorem groups_executed {group : GroupRow} (member : group ∈ after.persisted.groups) :
    ∃ execution ∈ after.history,
      execution.completed = true ∧ execution.transaction = group.body.transaction := by
  cases history_cases step with
  | inl quiet =>
    rw [quiet.2] at member
    rw [quiet.1]
    exact h.groups group member
  | inr executing =>
    obtain ⟨executed, history, _, groups⟩ := executing
    rw [groups] at member
    rw [history]
    have earlier (before : group ∈ state.persisted.groups) :
        ∃ execution ∈ state.history ++ [executed.execution],
          execution.completed = true ∧ execution.transaction = group.body.transaction := by
      obtain ⟨execution, before_member, same⟩ := h.groups group before
      exact ⟨execution, List.mem_append_left _ before_member, same⟩
    cases executed.effect_cases with
    | inl none => exact earlier (none ▸ member)
    | inr added =>
      obtain ⟨evaluated, completed, appended⟩ := added
      rw [appended] at member
      cases mem_append.mp member with
      | inl before => exact earlier before
      | inr last =>
        refine ⟨executed.execution, List.mem_append_right _ (List.mem_singleton_self _),
          completed, ?_⟩
        rw [mem_singleton.mp last]
        exact congrArg ReceiptCore.transaction executed.receipt_core

theorem transition : KeyInvariant config turn after where
  unique := h.unique.transition step
  drawn _ member := h.row_drawn step member
  distinct _ member _ other_member same := h.rows_distinct step member other_member same
  pending _ member owned := h.rows_pending step member owned
  unexecuted _ member owned _ executed := h.rows_unexecuted step member owned executed
  executed _ member := h.history_drawn step member
  completed _ member completed := h.completed_executions step member completed
  ordered := h.history_ordered step
  groups _ member := h.groups_executed step member

end

theorem transitions (steps : ReflTransGen (Transition config clock turn) state after) :
    KeyInvariant config turn after := by
  induction steps with
  | refl => exact h
  | tail _ step ih => exact ih.transition step

end

theorem run {epoch : String} {history : List Execution} {store : TransactionStore}
    (run : TransactionStore.Run config (.created epoch) history store) :
    KeyInvariant config store.turn ⟨store.persisted, history, 0⟩ := by
  induction run with
  | refl => exact created epoch
  | @called store history faults clock request _ ih =>
    have entered : TransactionStore.Enters config clock store.turn _ store _ :=
      TransactionStore.call_enters ih.unique faults request
    obtain ⟨draw, steps⟩ := entered.reaches history
    exact (ih.transitions steps).next

end KeyInvariant

end Bdp.Transaction
