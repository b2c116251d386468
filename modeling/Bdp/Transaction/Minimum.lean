import Bdp.Library.Waiting
import Bdp.Transaction.Positions
import Bdp.Transaction.Reads

/-!
# Reads at a minimum position

A read that carries a minimum checks it in the entry that captures its representation, and the wait
around it repeats whole entries until one deadline. What a read materializes and how its body is
finished are parameters: the results hold whatever they are.
-/

namespace Bdp.Transaction

open Relation
open Bdp.Except (bind_eq_ok)

section CurrentReads

/-- The fields of a current read that decide its route and how its minimum is checked. -/
structure ReadRequest where
  kind : String
  resource : Option String
  collection : Option String
  id : Option String
  continuation : Option String
  deriving DecidableEq, Repr

inductive MinimumKind where
  | resource
  | missing
  | initialCollection
  | strict
  deriving DecidableEq, Repr

def namesResource (resource : Option String) : Bool :=
  resource == some "bead" || resource == some "link" || resource == some "resource"

def namesCollection (collection : Option String) : Bool :=
  collection == some "beads" || collection == some "links" || collection == some "types"

/-- The reads that take a minimum. A continuation is none of them. -/
def isCurrentTransactionMinimumRead (scope : String) (request : ReadRequest) : Bool :=
  match request.kind with
  | "resource" =>
    if request.resource = some "type" then
      request.id.any fun id ↦ (stripScope scope id).isSome
    else namesResource request.resource
  | "properties" => namesResource request.resource
  | "collection" => namesCollection request.collection && request.continuation.isNone
  | "bead-links" => request.continuation.isNone
  | _ => false

def currentReadMinimumKind (request : ReadRequest) : MinimumKind :=
  if (request.kind = "resource" ∨ request.kind = "properties") ∧
      namesResource request.resource = true then .resource
  else if request.kind = "bead-links" ∧ request.continuation = none then .missing
  else if request.kind = "collection" ∧ namesCollection request.collection = true ∧
      request.continuation = none then .initialCollection
  else .strict

/-- What a read captures in its entry. -/
inductive Materialized (α : Type) where
  /-- The principal may not read at all: nothing is captured. -/
  | contextRefused (code : String)
  | refused (code : String)
  | representation (value : α)
  deriving DecidableEq

/-- A control refusal bypasses the minimum, and a missing Resource bypasses it by kind. -/
def checkSourceCondition (minimum : TransactionMinimum) (kind : MinimumKind)
    (context : TransactionReadContext) (refusal : Option String) : Except ReadFailure Unit :=
  if refusal = some "invalid-parameter" ∨ refusal = some "limit-exceeded" then .ok ()
  else if refusal = some "resource-not-found" then
    if kind = .resource ∨ kind = .missing then .ok ()
    else
      match checkCurrentReadMinimum minimum context false with
      | .error .behind | .error .foreignView | .error .cursorExpired => .error .visibilityGap
      | other => other
  else checkCurrentReadMinimum minimum context
    (kind == .resource || kind == .initialCollection)

end CurrentReads

namespace TransactionStore

variable (config : StoreConfiguration) {α β : Type}

/-- One entry of the read plane under a minimum; the body is finished after the entry. -/
def observeAtMinimum (store : TransactionStore) (minimum : TransactionMinimum) (kind : MinimumKind)
    (captured : Materialized β) (finish : β → Except ReadFailure (ReadOutcome α)) :
    Except ReadFailure (ReadOutcome α) :=
  store.entered <|
    match captured with
    | .contextRefused code => .ok (.problem code store.readContext)
    | .refused code => do
      checkSourceCondition minimum kind store.readContext (some code)
      pure (.problem code store.readContext)
    | .representation value => do
      checkSourceCondition minimum kind store.readContext none
      finish value

def performAtMinimum (store : TransactionStore) (minimum : TransactionMinimum)
    (request : ReadRequest) (materialize : TransactionStore → ReadRequest → Materialized β)
    (finish : β → Except ReadFailure α) : Except ReadFailure (ReadOutcome α) := do
  check (isCurrentTransactionMinimumRead config.scope request = true)
    (.internal "minimum-read route outside supported subset")
  store.observeAtMinimum minimum (currentReadMinimumKind request) (materialize store request)
    fun value ↦ (finish value).map fun body ↦ .found body store.readContext

/-- The resolution of an alias at a minimum. -/
def resolveAliasAtMinimum (store : TransactionStore) (minimum : TransactionMinimum)
    (url : String) (resolve : TransactionStore → String → Materialized α) :
    Except ReadFailure (ReadOutcome α) :=
  store.observeAtMinimum minimum .missing (resolve store url) fun value ↦
    .ok (.found value store.readContext)

/-- A fresh snapshot, or the admission of one, at a minimum. -/
def observeSnapshotAtMinimum (store : TransactionStore) (minimum : TransactionMinimum)
    (capture : TransactionStore → Except ReadFailure (Materialized α)) :
    Except ReadFailure (ReadOutcome α) :=
  store.entered do
    checkTransactionMinimum minimum store.readContext
    let captured ← capture store
    match captured with
    | .contextRefused code | .refused code => pure (.problem code store.readContext)
    | .representation value => pure (.found value store.readContext)

/-- The entries of the store that take a minimum. -/
inductive MinimumRead (config : StoreConfiguration) (minimum : TransactionMinimum) :
    {α : Type} → (TransactionStore → Except ReadFailure (ReadOutcome α)) → Prop where
  | events (source : TransactionEventSource) (after : Option String) :
      MinimumRead config minimum fun store ↦
        store.readEvents config source after (.minimum minimum)
  | beginEvents (source : TransactionEventSource) (after : Option String)
      (invalidReconnect : Bool) :
      MinimumRead config minimum fun store ↦
        store.beginEventScan config source after (.minimum minimum) invalidReconnect
  | changes (after : String) :
      MinimumRead config minimum fun store ↦ store.readChanges config after (.minimum minimum)
  | snapshot {α : Type} (capture : TransactionStore → Except ReadFailure (Materialized α)) :
      MinimumRead config minimum fun store ↦ store.observeSnapshotAtMinimum minimum capture
  | current {α β : Type} (request : ReadRequest)
      (materialize : TransactionStore → ReadRequest → Materialized β)
      (finish : β → Except ReadFailure α) :
      MinimumRead config minimum fun store ↦
        store.performAtMinimum config minimum request materialize finish
  | resolveAlias {α : Type} (url : String) (resolve : TransactionStore → String → Materialized α) :
      MinimumRead config minimum fun store ↦ store.resolveAliasAtMinimum minimum url resolve

/-- The context of a representation meets the minimum. -/
structure Meets (minimum : TransactionMinimum) (context : TransactionReadContext) : Prop where
  scopeEpoch : context.scopeEpoch = minimum.scopeEpoch
  authorizationView : context.authorizationView = minimum.authorizationView
  position : ∃ required, readPosition minimum.minimumPosition = some required ∧
    required ≤ context.scopePosition

variable {minimum : TransactionMinimum} {context : TransactionReadContext}

theorem checkTransactionMinimum_eq_ok :
    checkTransactionMinimum minimum context = .ok () ↔ Meets minimum context := by
  unfold checkTransactionMinimum
  rw [check_bind_eq_ok, check_bind_eq_ok, bind_eq_ok]
  constructor
  · intro h
    obtain ⟨epoch, view, required, named, reached⟩ := h
    exact ⟨epoch.symm, view.symm, required, require_eq_ok.mp named, check_eq_ok.mp reached⟩
  · intro h
    obtain ⟨required, named, reached⟩ := h.position
    exact ⟨h.scopeEpoch.symm, h.authorizationView.symm, required, require_eq_ok.mpr named,
      check_of reached⟩

theorem checkCurrentReadMinimum_eq_ok {waitable : Bool} :
    checkCurrentReadMinimum minimum context waitable = .ok () ↔ Meets minimum context := by
  unfold checkCurrentReadMinimum
  cases named : readPosition minimum.minimumPosition with
  | some required => exact checkTransactionMinimum_eq_ok
  | none =>
    constructor
    · intro h
      dsimp only at h
      split at h <;> cases h
    · intro h
      obtain ⟨required, other, _⟩ := h.position
      rw [named] at other
      cases other

variable {store : TransactionStore} {value : α}

theorem entered_eq_ok {run : Except ReadFailure α} :
    store.entered run = .ok value ↔ store.stopped = false ∧ run = .ok value := by
  unfold entered
  exact check_bind_eq_ok

theorem MinimumRead.served {read : TransactionStore → Except ReadFailure (ReadOutcome α)}
    (supported : MinimumRead config minimum read) (h : read store = .ok (.found value context)) :
    store.stopped = false ∧ context = store.readContext ∧ Meets minimum context := by
  cases supported with
  | events source after =>
    obtain ⟨running, h⟩ := entered_eq_ok.mp h
    split at h
    · cases h
    · split at h
      · cases h
      · rw [bind_eq_ok] at h
        obtain ⟨_, checked, h⟩ := h
        rw [bind_eq_ok] at h
        obtain ⟨cursor, _, h⟩ := h
        dsimp only at h
        rw [bind_eq_ok] at h
        obtain ⟨pair, _, h⟩ := h
        cases h
        exact ⟨running, rfl, checkTransactionMinimum_eq_ok.mp checked⟩
  | beginEvents source after invalidReconnect =>
    obtain ⟨running, h⟩ := entered_eq_ok.mp h
    split at h
    · cases h
    · split at h
      · cases h
      · rw [bind_eq_ok] at h
        obtain ⟨_, checked, h⟩ := h
        rw [check_bind_eq_ok, bind_eq_ok] at h
        obtain ⟨_, cursor, _, h⟩ := h
        rw [bind_eq_ok] at h
        obtain ⟨packet, _, h⟩ := h
        cases h
        exact ⟨running, rfl, checkTransactionMinimum_eq_ok.mp checked⟩
  | changes after =>
    obtain ⟨running, h⟩ := entered_eq_ok.mp h
    split at h
    · cases h
    · dsimp only at h
      rw [bind_eq_ok] at h
      obtain ⟨start, _, h⟩ := h
      rw [check_bind_eq_ok, check_bind_eq_ok, bind_eq_ok] at h
      obtain ⟨_, _, _, checked, h⟩ := h
      rw [bind_eq_ok] at h
      obtain ⟨found, _, h⟩ := h
      have meets := checkTransactionMinimum_eq_ok.mp checked
      cases found with
      | none =>
        dsimp only at h
        rw [check_bind_eq_ok] at h
        obtain ⟨_, h⟩ := h
        cases h
        exact ⟨running, rfl, meets⟩
      | some row =>
        dsimp only at h
        rw [check_bind_eq_ok, bind_eq_ok] at h
        obtain ⟨_, group, _, h⟩ := h
        rw [check_bind_eq_ok] at h
        obtain ⟨_, h⟩ := h
        cases h
        exact ⟨running, rfl, meets⟩
  | snapshot capture =>
    obtain ⟨running, h⟩ := entered_eq_ok.mp h
    rw [bind_eq_ok] at h
    obtain ⟨_, checked, h⟩ := h
    rw [bind_eq_ok] at h
    obtain ⟨captured, _, h⟩ := h
    cases captured with
    | representation value =>
      cases h
      exact ⟨running, rfl, checkTransactionMinimum_eq_ok.mp checked⟩
    | contextRefused code => cases h
    | refused code => cases h
  | current request materialize finish =>
    dsimp only [performAtMinimum] at h
    rw [check_bind_eq_ok] at h
    obtain ⟨running, h⟩ := entered_eq_ok.mp h.2
    split at h
    · cases h
    · rw [bind_eq_ok] at h
      obtain ⟨_, _, h⟩ := h
      cases h
    next body _ =>
      rw [bind_eq_ok] at h
      obtain ⟨_, checked, h⟩ := h
      dsimp only at h
      cases finished : finish body with
      | error failure =>
        rw [finished] at h
        cases h
      | ok value =>
        rw [finished] at h
        cases h
        exact ⟨running, rfl, checkCurrentReadMinimum_eq_ok.mp checked⟩
  | resolveAlias url resolve =>
    obtain ⟨running, h⟩ := entered_eq_ok.mp h
    split at h
    · cases h
    · rw [bind_eq_ok] at h
      obtain ⟨_, _, h⟩ := h
      cases h
    next body _ =>
      rw [bind_eq_ok] at h
      obtain ⟨_, checked, h⟩ := h
      cases h
      exact ⟨running, rfl, checkCurrentReadMinimum_eq_ok.mp checked⟩

end TransactionStore

section Receipts

/-- The position that a terminal receipt requires, and the position of its effect. -/
def Disposition.positions : Disposition → Option (ℕ × Option ℕ)
  | .pending => none
  | .completed requiredPosition effectPosition _ _ => some (requiredPosition, effectPosition)
  | .expired requiredPosition effectPosition _ => some (requiredPosition, effectPosition)
  | .failed requiredPosition _ _ => some (requiredPosition, none)

/-- The effect of a receipt is the group of its transaction at the required position. -/
def Positioned (persisted : Persisted) (row : ReceiptRow) : Prop :=
  ∀ required effect, row.receipt.disposition.positions = some (required, some effect) →
    effect = required ∧ ∃ group ∈ persisted.groups, group.position = required ∧
      group.body.transaction = row.receipt.core.transaction

variable {config : StoreConfiguration} {clock : Clock} {turn : ℕ} {state after : Traced}
variable {row : ReceiptRow}

theorem Positioned.mono {before later : Persisted}
    (h : Positioned before row) (grown : ∀ group ∈ before.groups, group ∈ later.groups) :
    Positioned later row := by
  intro required effect positions
  obtain ⟨same, group, member, position, transaction⟩ := h required effect positions
  exact ⟨same, group, grown group member, position, transaction⟩

variable {persisted : Persisted}

theorem Positioned.of_receipt {other : ReceiptRow} (h : Positioned persisted row)
    (positions : other.receipt.disposition.positions = row.receipt.disposition.positions)
    (transaction : other.receipt.core.transaction = row.receipt.core.transaction) :
    Positioned persisted other := by
  unfold Positioned at h ⊢
  rw [positions, transaction]
  exact h

theorem Expires.positions {now : ℤ} {compact : ReceiptRow} (h : Expires now row (some compact)) :
    compact.receipt.disposition.positions = row.receipt.disposition.positions := by
  cases h with
  | compacted completed past compact =>
    rw [completed]
    obtain ⟨_, rfl⟩ := compactReceipt_eq_ok compact
    rfl

theorem Transition.groups_grow (h : Transition config clock turn state after) :
    ∃ more, after.persisted.groups = state.persisted.groups ++ more := by
  cases h.effects_cases with
  | inl quiet => exact ⟨[], quiet.2.groups.trans (List.append_nil _).symm⟩
  | inr executing =>
    obtain ⟨executed, _, effects⟩ := executing
    rw [effects.groups]
    cases executed.cases_effected with
    | inl failed => exact ⟨[], failed.2.2.groups.trans (List.append_nil _).symm⟩
    | inr completed =>
      cases completed with
      | inl quiet =>
        obtain ⟨_, _, _, _, _, same⟩ := quiet
        rw [same]
        exact ⟨[], (List.append_nil _).symm⟩
      | inr announced =>
        obtain ⟨_, _, _, _, _, same⟩ := announced
        rw [same]
        exact ⟨_, rfl⟩

theorem ExecutedRow.positioned (executed : ExecutedRow config persisted)
    (row : ReceiptRow) : Positioned executed.effected { row with receipt := executed.receipt } := by
  intro required effect positions
  unfold ExecutedRow.effected ExecutedRow.receipt at *
  cases terminal : executed.evaluation with
  | failed problem =>
    rw [terminal] at positions
    cases positions
  | ok evaluated =>
    rw [terminal] at positions
    dsimp only [terminalEffect] at positions ⊢
    split at positions
    · cases positions
    next some_event =>
      cases positions
      refine ⟨rfl, ?_⟩
      rw [if_neg some_event]
      exact ⟨_, List.mem_append_right _ (List.mem_singleton_self _), rfl, rfl⟩

theorem positioned_transition (h : ∀ row ∈ state.persisted.receipts, Positioned state.persisted row)
    (step : Transition config clock turn state after) :
    ∀ row ∈ after.persisted.receipts, Positioned after.persisted row := by
  obtain ⟨more, groups⟩ := step.groups_grow
  have grown : ∀ group ∈ state.persisted.groups, group ∈ after.persisted.groups := by
    intro group member
    rw [groups]
    exact List.mem_append_left _ member
  have kept {row : ReceiptRow} (member : row ∈ state.persisted.receipts) :
      Positioned after.persisted row := (h row member).mono grown
  intro row member
  cases step with
  | @expire principal key reading expired remaining expiring =>
    cases expireKey_cases expiring with
    | inl unchanged => exact kept (unchanged.1 ▸ member)
    | inr changed =>
      obtain ⟨old, found, _, expires, same⟩ := changed
      subst same
      obtain ⟨old_member, _⟩ := find?_row found
      cases mem_replaceTerminal.mp member with
      | inl replaced =>
        obtain ⟨_, _, _, unowned, remains⟩ := replaced
        subst remains
        have change : RowChange clock old row := .compacted reading (by assumption) expires
        exact (kept old_member).of_receipt expires.positions change.transaction
      | inr present => exact kept present.1
  | @insert draw principal key normalized template le absent =>
    cases List.mem_append.mp member with
    | inl present => exact kept present
    | inr inserted =>
      rw [List.mem_singleton.mp inserted]
      exact fun _ _ positions ↦ nomatch positions
  | release principal key owner => exact kept (List.mem_of_mem_filter member)
  | bind claim normalized =>
    obtain ⟨old, old_member, rewritten⟩ := List.mem_map.mp member
    have held := kept old_member
    split at rewritten
    · rw [← rewritten]
      exact held.of_receipt rfl rfl
    · rw [← rewritten]
      exact held
  | facts creatorFacts => exact kept member
  | policy entry draw => exact kept member
  | retract => exact kept (List.mem_of_mem_filter member)
  | execute executed creatorFacts receiptPages =>
    change row ∈ executed.effected.receipts.map _ at member
    rw [executed.effected_receipts] at member
    obtain ⟨old, old_member, rewritten⟩ := List.mem_map.mp member
    split at rewritten
    · rw [← rewritten]
      exact (executed.positioned old).mono fun _ same ↦ same
    · rw [← rewritten]
      exact kept old_member

end Receipts

namespace TransactionStore

variable {config : StoreConfiguration} {store later : TransactionStore}
variable {history : List Execution}
variable {epoch : String}

theorem Run.groups_grow {before : List Execution}
    (start : Run config (created epoch) before store) (run : Run config store history later) :
    ∃ more, later.persisted.groups = store.persisted.groups ++ more := by
  have unique := (KeyInvariant.run start).unique
  clear start
  induction run with
  | refl => exact ⟨[], (List.append_nil _).symm⟩
  | @called between history faults clock request run ih =>
    obtain ⟨more, groups⟩ := ih
    have entered : Enters config clock between.turn _ between _ :=
      call_enters (run_names unique run) faults request
    obtain ⟨draw, steps⟩ := entered.reaches []
    have appended : ∃ last, (between.call config faults clock request).persisted.groups =
        between.persisted.groups ++ last := by
      generalize reached : (between.call config faults clock request).persisted = persisted at steps
      have grow : ∀ {state after : Traced},
          ReflTransGen (Transition config clock between.turn) state after →
          ∃ last, after.persisted.groups = state.persisted.groups ++ last := by
        intro state after steps
        induction steps with
        | refl => exact ⟨[], (List.append_nil _).symm⟩
        | tail _ step ih =>
          obtain ⟨first, earlier⟩ := ih
          obtain ⟨second, grown⟩ := step.groups_grow
          exact ⟨first ++ second, by rw [grown, earlier, List.append_assoc]⟩
      exact grow steps
    obtain ⟨last, grown⟩ := appended
    exact ⟨more ++ last, by rw [grown, groups, List.append_assoc]⟩

theorem Run.trans {middle : TransactionStore} {more : List Execution}
    (first : Run config store history middle) (second : Run config middle more later) :
    Run config store (history ++ more) later := by
  induction second with
  | refl => rwa [List.append_nil]
  | called faults clock request _ ih =>
    rw [← List.append_assoc]
    exact ih.called faults clock request

theorem positioned_run (run : Run config (created epoch) history store) :
    ∀ row ∈ store.persisted.receipts, Positioned store.persisted row := by
  induction run with
  | refl => exact fun _ member ↦ absurd member List.not_mem_nil
  | @called between history faults clock request run ih =>
    have entered : Enters config clock between.turn _ between _ :=
      call_enters (KeyInvariant.run run).unique faults request
    obtain ⟨draw, steps⟩ := entered.reaches []
    have preserved : ∀ {state after : Traced},
        ReflTransGen (Transition config clock between.turn) state after →
        (∀ row ∈ state.persisted.receipts, Positioned state.persisted row) →
        ∀ row ∈ after.persisted.receipts, Positioned after.persisted row := by
      intro state after steps holds
      induction steps with
      | refl => exact holds
      | tail _ step ih => exact positioned_transition ih step
    exact preserved steps ih

/-- A read that meets the position of a receipt sees the group of its transaction, whether it is
made before or after the state that holds the receipt. -/
theorem Meets.observes {minimum : TransactionMinimum}
    {reader : TransactionStore} (holder : Run config (created epoch) history store)
    {row : ReceiptRow} (member : row ∈ store.persisted.receipts) {required effect : ℕ}
    (positions : row.receipt.disposition.positions = some (required, some effect))
    (meets : Meets minimum reader.readContext) {named : ℕ}
    (position : readPosition minimum.minimumPosition = some named) (le : required ≤ named)
    (related : (∃ more, Run config store more reader) ∨
      ∃ before more, Run config (created epoch) before reader ∧ Run config reader more store) :
    ∃ group ∈ reader.persisted.groups, group.position = required ∧
      group.body.transaction = row.receipt.core.transaction := by
  obtain ⟨_, group, stored, at_position, transaction⟩ :=
    positioned_run holder row member required effect positions
  cases related with
  | inl after =>
    obtain ⟨more, run⟩ := after
    obtain ⟨appended, groups⟩ := holder.groups_grow run
    refine ⟨group, ?_, at_position, transaction⟩
    rw [groups]
    exact List.mem_append_left _ stored
  | inr before =>
    obtain ⟨earlier, more, start, run⟩ := before
    obtain ⟨appended, groups⟩ := start.groups_grow run
    rw [groups] at stored
    obtain ⟨named', same, reached⟩ := meets.position
    rw [position] at same
    cases same
    have bound : group.position ≤ reader.persisted.position :=
      at_position.trans_le (le.trans reached)
    cases List.mem_append.mp stored with
    | inl present => exact ⟨group, present, at_position, transaction⟩
    | inr late =>
      -- An appended group stands behind the reader's position.
      obtain ⟨first, _, _⟩ := GroupsInvariant.run start
      obtain ⟨second, _, _⟩ := GroupsInvariant.run holder
      have lengths : reader.persisted.groups.length = reader.persisted.position := by
        have counted := congrArg List.length first.positions
        rwa [List.length_map, List.length_range'] at counted
      obtain ⟨index, inside, same⟩ := List.getElem_of_mem late
      have placed : (store.persisted.groups.map GroupRow.position)[
          reader.persisted.groups.length + index]? = some group.position := by
        rw [groups, List.map_append, List.getElem?_append_right (by simp), List.length_map,
          Nat.add_sub_cancel_left, List.getElem?_map, List.getElem?_eq_getElem inside, same]
        rfl
      rw [second.positions] at placed
      obtain ⟨_, value⟩ := List.getElem?_eq_some_iff.mp placed
      rw [List.getElem_range'] at value
      omega

end TransactionStore

section Waiting

/-- The finite budget of a wait, in milliseconds. -/
structure MinimumWaitPolicy where
  budgetMs : ℕ
  positive : 0 < budgetMs
  bounded : budgetMs ≤ 2147483647

/-- The failures that a later entry may no longer meet. -/
def isWaitable : ReadFailure → Bool
  | .behind => true
  | .unproved => true
  | _ => false

/-- The wait around the attempts of a read, as far as the fuel goes. A reading that is not finite is
`none`. -/
def waitForTransactionMinimum {α : Type} (policy : MinimumWaitPolicy)
    (attempt : ℕ → Except ReadFailure α) (clock : ℕ → Option ℚ) (aborted : ℕ → Bool) (fuel : ℕ) :
    Option (ℕ × WaitOutcome ReadFailure α) :=
  match clock 0 with
  | none => some (0, .clockFault)
  | some started =>
    waitFrom isWaitable attempt clock aborted (started + policy.budgetMs) fuel 0 started

/-- The law of a wait that ended: it passed over waitable failures alone, each read before the
deadline, and ended as its last turn shows. -/
structure WaitLaw {α : Type} (attempt : ℕ → Except ReadFailure α) (clock : ℕ → Option ℚ)
    (deadline : ℚ) (last : ℕ) (outcome : WaitOutcome ReadFailure α) : Prop where
  retried : ∀ turn < last,
    (attempt turn = .error .behind ∨ attempt turn = .error .unproved) ∧
      ∃ current, clock (turn + 1) = some current ∧ current < deadline
  settled : ∀ value, outcome = .settled value → attempt last = .ok value
  failed : ∀ failure, outcome = .failed failure → attempt last = .error failure ∧
    failure ≠ .behind ∧ failure ≠ .unproved
  timedOut : outcome = .timedOut →
    (attempt last = .error .behind ∨ attempt last = .error .unproved) ∧
      ∃ current, clock (last + 1) = some current ∧ deadline ≤ current

theorem isWaitable_iff {failure : ReadFailure} :
    isWaitable failure = true ↔ failure = .behind ∨ failure = .unproved := by
  cases failure <;> simp [isWaitable]

theorem waitForTransactionMinimum_law {α : Type} {policy : MinimumWaitPolicy}
    {attempt : ℕ → Except ReadFailure α} {clock : ℕ → Option ℚ} {aborted : ℕ → Bool} {fuel : ℕ}
    {started : ℚ} {last : ℕ} {outcome : WaitOutcome ReadFailure α}
    (reading : clock 0 = some started)
    (h : waitForTransactionMinimum policy attempt clock aborted fuel = some (last, outcome)) :
    WaitLaw attempt clock (started + policy.budgetMs) last outcome := by
  have waitable {turn : ℕ} (failed : ∃ error, attempt turn = .error error ∧
      isWaitable error = true) :
      attempt turn = .error .behind ∨ attempt turn = .error .unproved := by
    obtain ⟨error, refused, again⟩ := failed
    cases isWaitable_iff.mp again with
    | inl same => exact Or.inl (same ▸ refused)
    | inr same => exact Or.inr (same ▸ refused)
  unfold waitForTransactionMinimum at h
  rw [reading] at h
  obtain ⟨_, retried, concluded⟩ := waitFrom_spec h
  refine ⟨?_, ?_, ?_, ?_⟩
  · intro turn before
    obtain ⟨failed, early⟩ := retried turn turn.zero_le before
    exact ⟨waitable failed, early⟩
  · intro value same
    subst same
    exact concluded
  · intro failure same
    subst same
    obtain ⟨refused, final⟩ := concluded
    have other : ¬ (failure = .behind ∨ failure = .unproved) := by
      rw [← isWaitable_iff, final]
      exact Bool.false_ne_true
    exact ⟨refused, fun same ↦ other (Or.inl same), fun same ↦ other (Or.inr same)⟩
  · intro same
    subst same
    obtain ⟨failed, late⟩ := concluded
    exact ⟨waitable failed, late⟩

end Waiting

namespace TransactionStore

/-- The law of minimum reads in a state that was reached with some executions. -/
structure MinimumLaw (config : StoreConfiguration) (store : TransactionStore) : Prop where
  served : ∀ {α : Type} (minimum : TransactionMinimum)
    (read : TransactionStore → Except ReadFailure (ReadOutcome α)),
    MinimumRead config minimum read → ∀ (value : α) (context : TransactionReadContext),
      read store = .ok (.found value context) →
        context = store.readContext ∧ Meets minimum context
  /-- A read at the position of a receipt, on any state of the run, observes its transaction. -/
  observes : ∀ {α : Type} (epoch : String) (before : List Execution) (holder : TransactionStore),
    Run config (created epoch) before holder →
    ((∃ more, Run config holder more store) ∨
      ∃ earlier more, Run config (created epoch) earlier store ∧ Run config store more holder) →
    ∀ row ∈ holder.persisted.receipts, ∀ required effect named,
      row.receipt.disposition.positions = some (required, some effect) →
      ∀ (minimum : TransactionMinimum)
        (read : TransactionStore → Except ReadFailure (ReadOutcome α)),
        MinimumRead config minimum read → readPosition minimum.minimumPosition = some named →
        required ≤ named → ∀ (value : α) (context : TransactionReadContext),
          read store = .ok (.found value context) →
            ∃ group ∈ store.persisted.groups, group.position = required ∧
              group.body.transaction = row.receipt.core.transaction

/-- The minimum of another epoch or view is served no representation, nor is one ahead of the
position; and every wait around a read ends lawfully. -/
theorem minimum_law (config : StoreConfiguration) :
    (∀ history store, Reachable config history store → MinimumLaw config store) ∧
      ∀ {α : Type} (minimum : TransactionMinimum)
        (read : TransactionStore → Except ReadFailure (ReadOutcome α)) (stores : ℕ → TransactionStore)
        (policy : MinimumWaitPolicy) (clock : ℕ → Option ℚ) (aborted : ℕ → Bool) (fuel : ℕ)
        (started : ℚ), MinimumRead config minimum read → clock 0 = some started →
        (∀ last outcome,
          waitForTransactionMinimum policy (fun turn ↦ read (stores turn)) clock aborted fuel =
            some (last, outcome) →
          WaitLaw (fun turn ↦ read (stores turn)) clock (started + policy.budgetMs) last outcome ∧
            ∀ value context, outcome = .settled (.found value context) →
              context = (stores last).readContext ∧ Meets minimum context) ∧
        ((∃ turn < fuel, ∀ current, clock (turn + 1) = some current →
            started + policy.budgetMs ≤ current) →
          (waitForTransactionMinimum policy (fun turn ↦ read (stores turn)) clock aborted
            fuel).isSome = true) := by
  have served {α : Type} {minimum : TransactionMinimum}
      {read : TransactionStore → Except ReadFailure (ReadOutcome α)} {store : TransactionStore}
      {value : α} {context : TransactionReadContext} (supported : MinimumRead config minimum read)
      (h : read store = .ok (.found value context)) :
      context = store.readContext ∧ Meets minimum context := (supported.served config h).2
  constructor
  · intro history store reachable
    refine ⟨fun minimum read supported value context h ↦ served supported h, ?_⟩
    intro α epoch before holder run related row member required effect named positions minimum read
      supported position le value context h
    obtain ⟨same, meets⟩ := served supported h
    rw [same] at meets
    exact meets.observes run member positions position le related
  · intro α minimum read stores policy clock aborted fuel started supported reading
    constructor
    · intro last outcome h
      have law := waitForTransactionMinimum_law reading h
      refine ⟨law, ?_⟩
      intro value context same
      exact served supported (law.settled _ same)
    · intro reached
      obtain ⟨turn, before, late⟩ := reached
      unfold waitForTransactionMinimum
      rw [reading]
      exact waitFrom_isSome ⟨turn, turn.zero_le, by omega, late⟩

/-- Minimum reads of a store with a receipt whose transaction emitted at the first position. -/
theorem minimum_law_created :
    MinimumLaw beadConfiguration beadCreated ∧
      beadCreated.persisted.receipts.map (fun row ↦ row.receipt.disposition.positions) =
        [some (1, some 1)] := by
  obtain ⟨history, reachable⟩ := beadCreated_reachable
  exact ⟨(minimum_law beadConfiguration).1 history beadCreated reachable, by decide +kernel⟩

end TransactionStore

end Bdp.Transaction
