import Bdp.Transaction.PageInvariant

/-!
# Receipt paging

The inline prefix of a completed receipt and the pages behind it are its results, once and in order,
whichever later states serve the pages; the stored plan passes its validation; a token serves one
receipt only.
-/

namespace Bdp.Transaction

open Relation
open Bdp.Except (bind_eq_ok ok_bind)
open List (append_assoc mem_cons mem_map)

variable {config : StoreConfiguration} {clock : Clock} {turn : ℕ} {state after : Traced}
variable {token : String}
variable {other : ReceiptPagePlan} {principal : String} {receipt : Receipt}

section Entries

/-- A plan as the entry of a turn cuts it. -/
structure Planned (config : StoreConfiguration) (turn : ℕ) (plan : ReceiptPagePlan) : Prop where
  maximum : plan.maximum = config.receiptMaximumItems
  ranges : plan.ranges = pageRanges config turn config.receiptMaximumItems plan.entries
    plan.entries config.receiptMaximumItems

variable {plan : ReceiptPagePlan}

theorem Planned.of_pagePlan {key : String}
    (h : plan ∈ pagePlan config turn principal key receipt) : Planned config turn plan := by
  unfold pagePlan at h
  split at h
  · rw [List.mem_singleton] at h
    rw [h]
    exact ⟨rfl, rfl⟩
  · cases h

theorem plans_added (key : KeyInvariant config turn state)
    (steps : ReflTransGen (Transition config clock turn) state after) :
    ∃ added, after.persisted.receiptPages = state.persisted.receiptPages ++ added ∧
      state.history.length + added.length ≤ after.history.length ∧
      ∀ plan ∈ added, Planned config turn plan := by
  induction steps with
  | refl => exact ⟨[], (List.append_nil _).symm, le_rfl, fun _ member ↦ nomatch member⟩
  | tail before step ih =>
    obtain ⟨added, pages, counted, planned⟩ := ih
    cases step.plans_cases (key.transitions before).unique with
    | inl quiet =>
      refine ⟨added, quiet.2.1.trans pages, ?_, planned⟩
      rw [quiet.1]
      exact counted
    | inr executing =>
      obtain ⟨executed, history, appended, _⟩ := executing
      refine ⟨added ++ pagePlan config turn executed.claim.principal executed.claim.key
        executed.receipt, ?_, ?_, ?_⟩
      · rw [appended, pages, append_assoc]
      · have single : (pagePlan config turn executed.claim.principal executed.claim.key
            executed.receipt).length ≤ 1 := by
          unfold pagePlan
          split
          · exact le_rfl
          · exact Nat.zero_le 1
        rw [history, List.length_append, List.length_append, List.length_singleton]
        omega
      · intro plan member
        cases List.mem_append.mp member with
        | inl earlier => exact planned plan earlier
        | inr last => exact Planned.of_pagePlan last

/-- The plans of a run, each with the entry that cut it, in the order of the entries. -/
def PlansOrdered (config : StoreConfiguration) (store : TransactionStore) : Prop :=
  ∃ turns : List ℕ, turns.Pairwise (· < ·) ∧ (∀ turn ∈ turns, turn < store.turn) ∧
    List.Forall₂ (Planned config) turns store.persisted.receiptPages

variable {store : TransactionStore}

theorem plansOrdered_run {epoch : String} {history : List Execution}
    (run : TransactionStore.Run config (.created epoch) history store) :
    PlansOrdered config store := by
  induction run with
  | refl =>
    exact ⟨[], List.Pairwise.nil, fun _ member ↦ absurd member List.not_mem_nil, List.Forall₂.nil⟩
  | @called store history faults clock request before ih =>
    obtain ⟨turns, ordered, bounded, planned⟩ := ih
    have key := KeyInvariant.run before
    have entered : TransactionStore.Enters config clock store.turn _ store _ :=
      TransactionStore.call_enters key.unique faults request
    obtain ⟨draw, steps⟩ := entered.reaches history
    obtain ⟨added, pages, counted, cut⟩ := plans_added key steps
    have single : added.length ≤ 1 := by
      have := @TransactionStore.executions_length config store faults clock request
      rw [List.length_append] at counted
      dsimp only at counted
      omega
    dsimp only at pages
    unfold PlansOrdered
    rw [pages]
    match added, single, cut with
    | [], _, _ =>
      rw [List.append_nil]
      exact ⟨turns, ordered, fun turn member ↦ Nat.lt_succ_of_lt (bounded turn member), planned⟩
    | [plan], _, cut =>
      refine ⟨turns ++ [store.turn], ?_, ?_, ?_⟩
      · rw [List.pairwise_append]
        refine ⟨ordered, List.pairwise_singleton _ _, ?_⟩
        intro turn member last last_member
        rw [List.mem_singleton.mp last_member]
        exact bounded turn member
      · intro turn member
        cases List.mem_append.mp member with
        | inl earlier => exact Nat.lt_succ_of_lt (bounded turn earlier)
        | inr last =>
          rw [List.mem_singleton.mp last]
          exact Nat.lt_succ_self _
      · exact List.rel_append planned
          (List.Forall₂.cons (cut plan (List.mem_singleton_self _)) List.Forall₂.nil)

theorem PlansOrdered.planned (h : PlansOrdered config store)
    (member : plan ∈ store.persisted.receiptPages) :
    ∃ turn < store.turn, Planned config turn plan := by
  obtain ⟨turns, ordered, bounded, planned⟩ := h
  clear ordered
  generalize store.persisted.receiptPages = plans at member planned
  induction planned with
  | nil => cases member
  | cons first rest ih =>
    cases mem_cons.mp member with
    | inl same =>
      subst same
      exact ⟨_, bounded _ List.mem_cons_self, first⟩
    | inr later => exact ih (fun turn inside ↦ bounded turn (List.mem_cons_of_mem _ inside)) later

def ReceiptPagePlan.tokens (plan : ReceiptPagePlan) : List String := plan.ranges.map Prod.fst

theorem Planned.token_drawn (h : Planned config turn plan) (member : token ∈ plan.tokens) :
    ∃ draw, token = config.uuid turn draw := by
  obtain ⟨page, inside, same⟩ := mem_map.mp member
  rw [h.ranges] at inside
  obtain ⟨place, _, _, cut⟩ := mem_pageRanges inside
  exact ⟨1000 + place, by rw [← same, cut]⟩

theorem PlansOrdered.token_unique (h : PlansOrdered config store)
    (member : plan ∈ store.persisted.receiptPages)
    (other_member : other ∈ store.persisted.receiptPages)
    (inside : token ∈ plan.tokens) (other_inside : token ∈ other.tokens) : plan = other := by
  obtain ⟨turns, ordered, bounded, planned⟩ := h
  clear bounded
  have drawn : ∀ {turn turn' : ℕ} {left right : ReceiptPagePlan}, Planned config turn left →
      Planned config turn' right → token ∈ left.tokens → token ∈ right.tokens → turn = turn' := by
    intro turn turn' left right cut cut' held held'
    obtain ⟨draw, same⟩ := cut.token_drawn held
    obtain ⟨draw', same'⟩ := cut'.token_drawn held'
    exact (config.uuid_injective (same.symm.trans same')).1
  have later : ∀ {turns : List ℕ} {plans : List ReceiptPagePlan},
      List.Forall₂ (Planned config) turns plans → ∀ plan ∈ plans,
        ∃ turn ∈ turns, Planned config turn plan := by
    intro turns plans planned
    induction planned with
    | nil => exact fun _ member ↦ nomatch member
    | cons first rest ih =>
      intro plan member
      cases mem_cons.mp member with
      | inl same => exact ⟨_, List.mem_cons_self, same ▸ first⟩
      | inr behind =>
        obtain ⟨turn, place, cut⟩ := ih plan behind
        exact ⟨turn, List.mem_cons_of_mem _ place, cut⟩
  generalize store.persisted.receiptPages = plans at member other_member planned
  induction planned with
  | nil => cases member
  | @cons turn first turns plans cut rest ih =>
    obtain ⟨before, ordered⟩ := List.pairwise_cons.mp ordered
    have apart {behind : ReceiptPagePlan} (behind_member : behind ∈ plans)
        (first_inside : token ∈ first.tokens) (behind_inside : token ∈ behind.tokens) : False := by
      obtain ⟨turn', place, cut'⟩ := later rest behind behind_member
      have same := drawn cut cut' first_inside behind_inside
      have := before turn' place
      omega
    cases mem_cons.mp member with
    | inl same =>
      cases mem_cons.mp other_member with
      | inl other_same => exact same.trans other_same.symm
      | inr behind => exact absurd (apart behind (same ▸ inside) other_inside) id
    | inr behind =>
      cases mem_cons.mp other_member with
      | inl other_same => exact absurd (apart behind (other_same ▸ other_inside) inside) id
      | inr other_behind => exact ih ordered behind other_behind

end Entries

variable {persisted : Persisted} {effect : Option ℕ} {expiresAt : ℤ} {required : ℕ}

section Lookups

variable {row : ReceiptRow}

theorem row_of_mem (unique : NamesUnique persisted.receipts) (member : row ∈ persisted.receipts) :
    persisted.row row.principal row.key = some row := by
  cases found : persisted.row row.principal row.key with
  | none => exact absurd rfl (find?_row_eq_none.mp found row member)
  | some other =>
    obtain ⟨other_member, name⟩ := find?_row found
    exact congrArg some (unique.eq_of_mem other_member member name)

theorem find?_plan {plans : List ReceiptPagePlan}
    (distinct : plans.Pairwise fun earlier later ↦ earlier.receipt ≠ later.receipt)
    {plan : ReceiptPagePlan} (member : plan ∈ plans) (test : ReceiptPagePlan → Bool)
    (passes : test plan = true) (only : ∀ other, test other = true →
      other.receipt = plan.receipt) : plans.find? test = some plan := by
  induction plans with
  | nil => cases member
  | cons first plans ih =>
    obtain ⟨before, distinct⟩ := List.pairwise_cons.mp distinct
    cases mem_cons.mp member with
    | inl same =>
      subst same
      exact List.find?_cons_of_pos passes
    | inr later =>
      have refused : ¬ test first = true := fun found ↦ before plan later (only first found)
      rw [List.find?_cons_of_neg refused]
      exact ih distinct later

theorem expireKey_early (unique : NamesUnique persisted.receipts)
    (member : row ∈ persisted.receipts) {results : List ResultEntry} {now : ℤ}
    (completed : row.receipt.disposition = .completed required effect results expiresAt)
    (unowned : row.owner = none) (early : now ≤ expiresAt) :
    persisted.expireKey row.principal row.key now = .ok (persisted, some row) := by
  have kept : expireRow row now = .ok (some row, none) := by
    rw [expireRow, if_neg (not_not.mpr unowned), completed]
    dsimp only
    rw [if_pos early]
  rw [Persisted.expireKey, row_of_mem unique member]
  dsimp only
  rw [kept]
  rfl

end Lookups

/-- The random identifiers of a run are page tokens. -/
def TokensFormed (config : StoreConfiguration) (store : TransactionStore) : Prop :=
  ∀ turn < store.turn, ∀ plan ∈ store.persisted.receiptPages, ∀ place < plan.entries,
    isPageToken (config.uuid turn (1000 + place)) = true

/-- What the invariants of a run give for one completed receipt. -/
structure PlannedReceipt (config : StoreConfiguration) (store : TransactionStore)
    (row : ReceiptRow) (results : List ResultEntry) (plan : ReceiptPagePlan) : Prop where
  stored : plan ∈ store.persisted.receiptPages
  receipt : plan.receipt = row.receipt.core.id
  principal : plan.principal = row.principal
  key : plan.key = row.key
  entries : plan.entries = results.length
  cut : ∃ turn < store.turn, Planned config turn plan

namespace TransactionStore

variable {history : List Execution} {store later : TransactionStore} {epoch : String}
variable {row : ReceiptRow} {results : List ResultEntry} {plan : ReceiptPagePlan}

section

variable (run : Run config (created epoch) history store)
include run

theorem Run.plannedReceipt
    (member : row ∈ store.persisted.receipts) (held : row.receipt.available = some results) :
    ∃ plan, PlannedReceipt config store row results plan := by
  obtain ⟨plan, stored, receipt, principal, key, entries⟩ :=
    (PageInvariant.run run).planned row member results held
  exact ⟨plan, stored, receipt, principal, key, entries, (plansOrdered_run run).planned stored⟩

theorem storedPagePlan_accepted
    (formed : TokensFormed config store) (member : row ∈ store.persisted.receipts)
    (held : row.receipt.available = some results) (some_result : results ≠ [])
    (planned : PlannedReceipt config store row results plan) :
    storedPagePlan config store.persisted row.receipt = .ok plan := by
  have invariant := PageInvariant.run run
  have unique := (KeyInvariant.run run).unique
  obtain ⟨turn, before, maximum, ranges⟩ := planned.cut
  have positive := config.receiptMaximumItems_pos
  have found : store.persisted.receiptPages.find? (fun plan ↦ plan.receipt == row.receipt.core.id) =
      some plan := by
    apply find?_plan invariant.distinct planned.stored _
    · simp [planned.receipt]
    · intro other same
      rw [planned.receipt]
      simpa using same
  have parent : store.persisted.row plan.principal plan.key = some row := by
    rw [planned.principal, planned.key]
    exact row_of_mem unique member
  have sorted : plan.ranges.insertionSort StartsBefore = plan.ranges := by
    apply List.Pairwise.insertionSort_eq
    rw [ranges]
    exact (pageRanges_ordered positive _ _).imp fun before ↦ Nat.le_of_lt before
  have chain : checkPageChain config.receiptMaximumItems plan.entries config.receiptMaximumItems []
      plan.ranges = .ok (max config.receiptMaximumItems plan.entries) := by
    rw [ranges]
    apply checkPageChain_pageRanges positive (Nat.le_add_left _ _)
    · exact formed turn before plan planned.stored
    · exact fun token member ↦ absurd member List.not_mem_nil
  have counted : 1 ≤ plan.entries := by
    rw [planned.entries]
    exact List.length_pos_iff.mpr some_result
  have available : ∀ held ∈ row.receipt.available, held.length = plan.entries := by
    intro other other_held
    rw [held] at other_held
    cases other_held
    exact planned.entries.symm
  have keyed : plan.key = row.receipt.core.idempotencyKey :=
    planned.key.trans (invariant.keyed row member).symm
  unfold storedPagePlan
  rw [bind_eq_ok]
  refine ⟨plan, require_eq_ok.mpr found, ?_⟩
  rw [bind_eq_ok]
  refine ⟨row, require_eq_ok.mpr parent, ?_⟩
  rw [check_bind_eq_ok]
  refine ⟨⟨keyed, rfl⟩, ?_⟩
  dsimp only
  rw [sorted, check_bind_eq_ok]
  refine ⟨⟨counted, maximum, available⟩, ?_⟩
  rw [bind_eq_ok]
  refine ⟨_, chain, ?_⟩
  rw [check_bind_eq_ok]
  exact ⟨rfl, rfl⟩

end

theorem plan_partition (planned : PlannedReceipt config store row results plan) :
    slice results 0 plan.maximum ++
      plan.ranges.flatMap (fun page ↦ slice results page.2.1 page.2.2) = results := by
  obtain ⟨turn, _, maximum, ranges⟩ := planned.cut
  rw [ranges, maximum]
  exact take_append_pageRanges config.receiptMaximumItems_pos planned.entries.symm
    (Nat.le_add_left _ _)

/-- A later state that serves the pages of a receipt before its detail expires. -/
structure Serving (config : StoreConfiguration) (store : TransactionStore) (row : ReceiptRow)
    (expiresAt : ℤ) (visible : Bool) (later : TransactionStore) (clock : Clock) : Prop where
  run : ∃ history, Run config store history later
  running : later.stopped = false
  held : row ∈ later.persisted.receipts
  formed : TokensFormed config later
  instant : 0 ≤ clock 0 ∧ clock 0 ≤ 8640000000000000 - day
  early : clock 0 ≤ expiresAt
  visible : later.authorization.allVisible = visible

variable {more : List Execution}

section

variable (start : Run config (created epoch) history store)
include start

theorem Run.plans_grow (run : Run config store more later) :
    ∃ added, later.persisted.receiptPages = store.persisted.receiptPages ++ added := by
  induction run with
  | refl => exact ⟨[], (List.append_nil _).symm⟩
  | @called between between_history faults clock request run ih =>
    obtain ⟨added, pages⟩ := ih
    have key := KeyInvariant.run (start.trans run)
    have entered : Enters config clock between.turn _ between _ :=
      call_enters key.unique faults request
    obtain ⟨draw, steps⟩ := entered.reaches (history ++ between_history)
    obtain ⟨last, grown, _⟩ := plans_added key steps
    dsimp only at grown
    exact ⟨added ++ last, by rw [grown, pages, append_assoc]⟩

theorem Run.plan_kept
    (run : Run config store more later) (planned : PlannedReceipt config store row results plan)
    (again : PlannedReceipt config later row results other) :
    other = plan := by
  obtain ⟨added, grown⟩ := start.plans_grow run
  have stored : plan ∈ later.persisted.receiptPages := by
    rw [grown]
    exact List.mem_append_left _ planned.stored
  have distinct := (PageInvariant.run (start.trans run)).distinct
  dsimp only at distinct
  have first := find?_plan distinct stored (fun plan ↦ plan.receipt == row.receipt.core.id)
    (by simp [planned.receipt]) (fun other same ↦ by
      rw [planned.receipt]
      simpa using same)
  have second := find?_plan distinct again.stored
    (fun plan ↦ plan.receipt == row.receipt.core.id)
    (by simp [again.receipt]) (fun other same ↦ by
      rw [again.receipt]
      simpa using same)
  exact Option.some.inj (second.symm.trans first)

end

variable {index : ℕ}
variable {page : String × ℕ × ℕ}

theorem indexOf_token (planned : PlannedReceipt config store row results plan)
    (inside : plan.ranges[index]? = some page) :
    plan.indexOf page.1 = some index := by
  obtain ⟨turn, _, _, ranges⟩ := planned.cut
  have tokens : plan.ranges.Pairwise fun left right ↦ left.1 ≠ right.1 := by
    rw [ranges]
    exact pageRanges_tokens config.receiptMaximumItems_pos _ _
  obtain ⟨bound, same⟩ := List.getElem?_eq_some_iff.mp inside
  rw [ReceiptPagePlan.indexOf, List.findIdx?_eq_some_iff_getElem]
  refine ⟨bound, by simp [same], ?_⟩
  intro earlier before found
  have apart := List.pairwise_iff_getElem.mp tokens earlier index (before.trans bound) bound before
  rw [same] at apart
  exact apart (by simpa using found)

variable {visible : Bool}

section

variable (run : Run config (created epoch) history store)
include run

theorem readReceiptPage_page
    (completed : row.receipt.disposition = .completed required effect results expiresAt)
    (some_result : results ≠ []) (planned : PlannedReceipt config store row results plan)
    (serving : Serving config store row expiresAt visible later clock)
    (inside : plan.ranges[index]? = some page) :
    readReceiptPage config later clock row.principal (pageUrl row.receipt.core.id page.1) .absent =
      .ok (later.persisted, .page
        { receipt := row.receipt.core.id
          results := (slice results page.2.1 page.2.2).map (projectTransactionEntry visible)
          next := plan.ranges[index + 1]?.map fun page ↦ pageUrl row.receipt.core.id page.1 }
        later.readContext) := by
  obtain ⟨more, onward⟩ := serving.run
  have whole := run.trans onward
  have key := KeyInvariant.run whole
  have invariant := PageInvariant.run whole
  have held : row.receipt.available = some results := by rw [Receipt.available, completed]
  obtain ⟨again, replanned⟩ := whole.plannedReceipt serving.held held
  obtain rfl := run.plan_kept onward planned replanned
  have accepted := storedPagePlan_accepted whole serving.formed serving.held held some_result
    replanned
  have unowned : row.owner = none := by
    by_contra owned
    have pending := key.pending row serving.held owned
    rw [completed] at pending
    cases pending
  have expired := expireKey_early key.unique serving.held completed unowned serving.early
  have token : isPageToken page.1 = true := by
    obtain ⟨turn, before, _, ranges⟩ := replanned.cut
    have member := List.mem_of_getElem? inside
    rw [ranges] at member
    obtain ⟨place, _, bound, cut⟩ := mem_pageRanges member
    rw [cut]
    exact serving.formed turn before _ replanned.stored place bound
  have split : splitPageUrl (pageUrl row.receipt.core.id page.1).toList =
      some (row.receipt.core.id.toList, page.1.toList) := by
    have letters : (pageUrl row.receipt.core.id page.1).toList =
        row.receipt.core.id.toList ++ ("/pages/".toList ++ page.1.toList) := by
      rw [pageUrl, String.toList_append, String.toList_append, append_assoc]
    rw [letters, splitPageUrl_append _ (isPageToken_slash token)]
  have rooted : (stripScope (config.scope ++ "receipts/") row.receipt.core.id).isNone = false := by
    obtain ⟨entry, draw, url, _⟩ := invariant.identified row serving.held
    have stripped : stripScope (config.scope ++ "receipts/") row.receipt.core.id =
        some (config.uuid entry draw) := stripScope_eq_some.mpr url
    rw [stripped]
    rfl
  have found : later.persisted.receiptPages.find? (fun plan ↦
      plan.receipt == row.receipt.core.id && plan.principal == row.principal) = some again := by
    apply find?_plan invariant.distinct replanned.stored _
    · simp [replanned.receipt, replanned.principal]
    · intro other same
      rw [replanned.receipt]
      simp only [Bool.and_eq_true, beq_iff_eq] at same
      exact same.1
  have parent : later.persisted.row row.principal again.key = some row := by
    rw [replanned.key]
    exact row_of_mem key.unique serving.held
  have epoch : ¬ row.receipt.core.scopeEpoch ≠ later.persisted.epoch :=
    not_not.mpr (invariant.epochs row serving.held)
  have observed : observeReceipt config later.persisted later.readContext row.receipt = .ok () := by
    unfold observeReceipt
    rw [check_bind_eq_ok]
    refine ⟨invariant.epochs row serving.held, ?_⟩
    rw [check_bind_eq_ok]
    refine ⟨invariant.behind row serving.held, ?_⟩
    rw [receiptPrefix, held]
    dsimp only
    rw [accepted]
    rfl
  have read : instant clock 0 = .ok (clock 0) := by
    rw [instant, check_of serving.instant]
    rfl
  unfold readReceiptPage entered
  rw [check_of serving.running, ok_bind]
  simp only [split, String.ofList_toList, rooted, Bool.false_eq_true, if_false, found, parent,
    require_some, ok_bind]
  rw [check_of trivial, ok_bind, if_neg epoch, accepted]
  simp only [thrown, Except.mapError, ok_bind, indexOf_token replanned inside,
    reduceCtorEq, if_false, checkSupplied, read]
  rw [replanned.key, expired]
  simp only [ok_bind, require_some, held, observed, inside, serving.visible, Except.pure_eq_ok]

theorem followPages_from
    (completed : row.receipt.disposition = .completed required effect results expiresAt)
    (some_result : results ≠ []) (planned : PlannedReceipt config store row results plan)
    {serving : ℕ → TransactionStore × Clock}
    (served : ∀ index, Serving config store row expiresAt visible (serving index).1
      (serving index).2) (fuel : ℕ) :
    ∀ index, plan.ranges.length ≤ index + fuel → followPages config serving row.principal fuel index
        (plan.ranges[index]?.map fun page ↦ pageUrl row.receipt.core.id page.1) =
        .ok ((plan.ranges.drop index).flatMap fun page ↦
          (slice results page.2.1 page.2.2).map (projectTransactionEntry visible)) := by
  have ended {fuel index : ℕ} (beyond : plan.ranges.length ≤ index) :
      followPages config serving row.principal fuel index
        (plan.ranges[index]?.map fun page ↦ pageUrl row.receipt.core.id page.1) =
        .ok ((plan.ranges.drop index).flatMap fun page ↦
          (slice results page.2.1 page.2.2).map (projectTransactionEntry visible)) := by
    rw [List.getElem?_eq_none beyond, List.drop_of_length_le beyond, Option.map_none]
    cases fuel <;> rfl
  induction fuel with
  | zero => exact fun _ enough ↦ ended enough
  | succ fuel ih =>
    intro index enough
    by_cases beyond : plan.ranges.length ≤ index
    · exact ended beyond
    · have bound : index < plan.ranges.length := by omega
      have inside : plan.ranges[index]? = some plan.ranges[index] := List.getElem?_eq_getElem bound
      rw [inside, Option.map_some, followPages, readReceiptPage_page run completed some_result
        planned (served index) inside, ok_bind]
      dsimp only
      rw [ih (index + 1) (by omega), ok_bind, List.drop_eq_getElem_cons bound, List.flatMap_cons]
      rfl

end

theorem thrown_eq_ok {α : Type} {outcome : Except String α} {value : α} :
    thrown outcome = .ok value ↔ outcome = .ok value := by
  cases outcome <;> simp [thrown, Except.mapError]

theorem mem_tokens_of_indexOf (h : plan.indexOf token = some index) : token ∈ plan.tokens := by
  rw [ReceiptPagePlan.indexOf, List.findIdx?_eq_some_iff_getElem] at h
  obtain ⟨bound, found, _⟩ := h
  have same : plan.ranges[index].1 = token := by simpa using found
  exact mem_map.mpr ⟨_, List.getElem_mem bound, same⟩

theorem storedPagePlan_tokens (distinct : persisted.receiptPages.Pairwise fun earlier later ↦
      earlier.receipt ≠ later.receipt)
    {saved : ReceiptPagePlan} (member : saved ∈ persisted.receiptPages)
    (same : saved.receipt = receipt.core.id)
    (h : storedPagePlan config persisted receipt = .ok plan) :
    ∀ token ∈ plan.tokens, token ∈ saved.tokens := by
  unfold storedPagePlan at h
  rw [bind_eq_ok] at h
  obtain ⟨other, found, h⟩ := h
  have first := find?_plan distinct member (fun plan ↦ plan.receipt == receipt.core.id)
    (by simp [same]) (fun other equal ↦ by
      rw [same]
      simpa using equal)
  obtain rfl := Option.some.inj (first.symm.trans (require_eq_ok.mp found))
  rw [bind_eq_ok] at h
  obtain ⟨_, _, h⟩ := h
  rw [check_bind_eq_ok] at h
  obtain ⟨_, h⟩ := h
  dsimp only at h
  rw [check_bind_eq_ok, bind_eq_ok] at h
  obtain ⟨_, _, _, h⟩ := h
  rw [check_bind_eq_ok] at h
  cases h.2
  intro token inside
  obtain ⟨page, page_member, name⟩ := mem_map.mp inside
  exact mem_map.mpr ⟨page, (List.perm_insertionSort _ _).mem_iff.mp page_member, name⟩

/-- A page that is served is a page of the caller's own receipt: its token belongs to the plan of
that receipt, under the principal and the key of its row. -/
theorem readReceiptPage_own (run : Run config (created epoch) history store) {id : String}
    {supplied : SuppliedMinimum} {expired : Persisted} {page : ReceiptPage ReadEntry}
    {context : TransactionReadContext}
    (h : readReceiptPage config store clock principal id supplied =
      .ok (expired, .page page context)) :
    ∃ row ∈ store.persisted.receipts, ∃ plan ∈ store.persisted.receiptPages, ∃ token,
      id = pageUrl page.receipt token ∧ row.principal = principal ∧
        row.receipt.core.id = page.receipt ∧ plan.receipt = page.receipt ∧
        plan.principal = row.principal ∧ plan.key = row.key ∧ token ∈ plan.tokens := by
  have unique := (KeyInvariant.run run).unique
  have invariant := PageInvariant.run run
  unfold readReceiptPage entered at h
  rw [check_bind_eq_ok] at h
  obtain ⟨_, h⟩ := h
  dsimp only at h
  split at h
  next => cases h
  next parent letters split =>
    split at h
    next => cases h
    next =>
      split at h
      next =>
        rw [check_bind_eq_ok] at h
        cases h.2
      next saved found =>
        rw [bind_eq_ok] at h
        obtain ⟨stored, looked, h⟩ := h
        rw [check_bind_eq_ok] at h
        obtain ⟨same_id, h⟩ := h
        split at h
        next => cases h
        next =>
          rw [bind_eq_ok] at h
          obtain ⟨plan, planned, h⟩ := h
          obtain ⟨row_member, name⟩ := find?_row (require_eq_ok.mp looked)
          have saved_member := List.mem_of_find?_eq_some found
          have saved_found := List.find?_some found
          simp only [Bool.and_eq_true, beq_iff_eq] at saved_found
          split at h
          next => cases h
          next index located =>
            have served : page.receipt = String.ofList parent := by
              split at h
              next => cases h
              next =>
                rw [bind_eq_ok] at h
                obtain ⟨_, _, h⟩ := h
                rw [bind_eq_ok] at h
                obtain ⟨_, _, h⟩ := h
                rw [bind_eq_ok] at h
                obtain ⟨⟨after, remaining⟩, _, h⟩ := h
                rw [bind_eq_ok] at h
                obtain ⟨_, _, h⟩ := h
                split at h
                next => cases h
                next =>
                  rw [bind_eq_ok] at h
                  obtain ⟨_, _, h⟩ := h
                  rw [bind_eq_ok] at h
                  obtain ⟨_, _, h⟩ := h
                  cases h
                  rfl
            have stored_plan := storedPagePlan_tokens invariant.distinct saved_member
              (saved_found.1.trans same_id.symm) (thrown_eq_ok.mp planned)
            have member : String.ofList letters ∈ saved.tokens :=
              stored_plan _ (mem_tokens_of_indexOf located)
            refine ⟨stored, row_member, saved, saved_member, String.ofList letters, ?_,
              congrArg Prod.fst name, same_id.trans served.symm, saved_found.1.trans served.symm,
              saved_found.2.trans (congrArg Prod.fst name).symm, (congrArg Prod.snd name).symm,
              member⟩
            apply String.ext
            rw [splitPageUrl_eq_some split, served, pageUrl, String.toList_append,
              String.toList_append, String.toList_ofList, append_assoc]
            simp only [String.toList_ofList]

end TransactionStore

/-- Receipt paging in one state of a run. -/
structure ReceiptPaging (config : StoreConfiguration) (history : List Execution)
    (store : TransactionStore) : Prop where
  /-- The plan of a completed receipt is accepted; the prefix and the pages behind it, each read in
  some later state, are the results. -/
  paged : TokensFormed config store → ∀ row ∈ store.persisted.receipts,
    ∀ required effect results expiresAt,
      row.receipt.disposition = .completed required effect results expiresAt → results ≠ [] →
      ∃ plan ∈ store.persisted.receiptPages, ∃ next,
        storedPagePlan config store.persisted row.receipt = .ok plan ∧
        plan.principal = row.principal ∧ plan.key = row.key ∧
        receiptPrefix config store.persisted row.receipt = .ok (some
          { receipt := row.receipt.core.id, results := slice results 0 plan.maximum, next }) ∧
        ∀ visible (serving : ℕ → TransactionStore × Clock),
          (∀ index, TransactionStore.Serving config store row expiresAt visible (serving index).1
            (serving index).2) →
          ∃ rest, followPages config serving row.principal plan.ranges.length 0 next = .ok rest ∧
            (slice results 0 plan.maximum).map (projectTransactionEntry visible) ++ rest =
              results.map (projectTransactionEntry visible)
  /-- Who reads a page reads a page of an own receipt, and no other plan has its token. -/
  own : ∀ clock principal id supplied expired page context,
    readReceiptPage config store clock principal id supplied =
      .ok (expired, .page page context) →
    ∃ row ∈ store.persisted.receipts, ∃ plan ∈ store.persisted.receiptPages, ∃ token,
      id = pageUrl page.receipt token ∧ row.principal = principal ∧
        row.receipt.core.id = page.receipt ∧ plan.receipt = page.receipt ∧
        plan.principal = row.principal ∧ plan.key = row.key ∧ token ∈ plan.tokens ∧
        ∀ other ∈ store.persisted.receiptPages, token ∈ other.tokens → other = plan

/-- Receipt paging: for every completed transaction of every run, with any number of results and any
page maximum, the inline prefix and the chain of pages partition the results in order, the stored
plan passes its validation, and a token never serves a receipt of another principal or key. -/
theorem receipt_paging {history : List Execution} {store : TransactionStore}
    (reachable : TransactionStore.Reachable config history store) :
    ReceiptPaging config history store where
  paged := by
    intro formed row member required effect results expiresAt completed some_result
    obtain ⟨epoch, run⟩ := reachable
    have held : row.receipt.available = some results := by rw [Receipt.available, completed]
    obtain ⟨plan, planned⟩ := run.plannedReceipt member held
    have accepted := TransactionStore.storedPagePlan_accepted run formed member held some_result
      planned
    refine ⟨plan, planned.stored,
      plan.ranges.head?.map fun page ↦ pageUrl row.receipt.core.id page.1, accepted,
      planned.principal, planned.key, ?_, ?_⟩
    · rw [receiptPrefix, held]
      dsimp only
      rw [accepted]
      rfl
    · intro visible serving served
      have followed := TransactionStore.followPages_from run completed some_result planned served
        plan.ranges.length 0 (by omega)
      rw [List.head?_eq_getElem?]
      refine ⟨_, followed, ?_⟩
      rw [List.drop_zero, ← List.map_flatMap, ← List.map_append,
        TransactionStore.plan_partition planned]
  own := by
    intro clock principal id supplied expired page context served
    obtain ⟨epoch, run⟩ := reachable
    obtain ⟨row, member, plan, stored, token, url, same, receipt, planned, principals, keys,
      inside⟩ := TransactionStore.readReceiptPage_own run served
    refine ⟨row, member, plan, stored, token, url, same, receipt, planned, principals, keys,
      inside, ?_⟩
    intro other other_stored other_inside
    exact (plansOrdered_run run).token_unique other_stored stored other_inside inside

namespace TransactionStore

def pairNormalized : NormalizedTransaction :=
  { beadNormalized with
    operations := [.resource .createBead none (.object []), .resource .createBead none (.object [])]
    aliases := [[], []] }

/-- A configuration whose receipts hold one result in their prefix and one on each page. -/
def pagedConfiguration : StoreConfiguration :=
  { beadConfiguration with
    uuid := fun turn draw ↦ Nat.repr (Nat.pair turn draw)
    uuid_injective := fun same ↦ Nat.pair_eq_pair.mp (Nat.repr_injective same)
    receiptMaximumItems := 1
    receiptMaximumItems_pos := Nat.one_pos
    normalize := fun _ _ _ _ ↦ .ok pairNormalized }

/-- A store after the admission of two operations. -/
def pagedAdmitted : TransactionStore :=
  let inserted := insertPending pagedConfiguration (created "epoch").persisted 0 0 "alice" "key"
    (some pairNormalized) none
  { created "epoch" with persisted := inserted.1, claims := [inserted.2], turn := 1 }

def pagedCreated : TransactionStore :=
  pagedAdmitted.call pagedConfiguration (fun _ ↦ .none) (fun _ ↦ 0)
    (.execute (pagedConfiguration.uuid 0 2) beadEvaluators)

theorem pagedAdmitted_eq : (created "epoch").call pagedConfiguration (fun _ ↦ .none) (fun _ ↦ 0)
    (.admitRequest "alice" "key"
      { text := "[]", singleton := false, operations := pairNormalized.operations }
      { acceptsJson := true, maximumOperations := 10 }) = pagedAdmitted :=
  (call_admitRequest rfl (checkKey_key (by decide)) rfl).trans (by decide +kernel)

theorem pagedCreated_reachable : ∃ history, Reachable pagedConfiguration history pagedCreated := by
  have admitted : ∃ history, Run pagedConfiguration (created "epoch") history pagedAdmitted := by
    rw [← pagedAdmitted_eq]
    exact ⟨_, Run.called _ _ _ .refl⟩
  obtain ⟨_, run⟩ := admitted
  exact ⟨_, "epoch", Run.called _ _ _ run⟩

/-- The receipt of the two operations holds two results, and its plan one page. -/
theorem receipt_paging_pair :
    (∃ history, ReceiptPaging pagedConfiguration history pagedCreated) ∧
      TokensFormed pagedConfiguration pagedCreated ∧
      pagedCreated.persisted.receipts.map (fun row ↦ row.receipt.available.map List.length) =
        [some 2] ∧
      pagedCreated.persisted.receiptPages.map (fun plan ↦ plan.ranges.map Prod.snd) =
        [[(1, 2)]] := by
  obtain ⟨history, reachable⟩ := pagedCreated_reachable
  refine ⟨⟨history, receipt_paging reachable⟩, ?_, ?_, ?_⟩
  · unfold TokensFormed
    decide +kernel
  · decide +kernel
  · decide +kernel

end TransactionStore

end Bdp.Transaction
