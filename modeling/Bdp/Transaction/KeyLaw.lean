import Bdp.Transaction.KeyInvariant

/-!
# The state machine of a key

What every run keeps of a key: one owner, one completed execution, a terminal receipt that changes
only after its expiry, and pending receipts that have committed nothing.
-/

namespace Bdp.Transaction

open Recovery (StoredResource)
open Relation

variable {config : StoreConfiguration} {clock : Clock} {turn : ℕ}
variable {now : ℤ}

section Settled

/-- What a call makes of a terminal row. -/
inductive Settled (clock : Clock) (row : ReceiptRow) (persisted : Persisted) : Prop where
  | kept (member : row ∈ persisted.receipts)
  | compacted {compact : ReceiptRow} (reading : ℕ)
      (expires : Expires (clock reading) row (some compact)) (member : compact ∈ persisted.receipts)
  | forgotten (reading : ℕ) (expires : Expires (clock reading) row none)

variable {row : ReceiptRow}

theorem Expires.compact {compact : ReceiptRow} (h : Expires now row (some compact)) :
    ∃ requiredPosition effectPosition allocated,
      compact.receipt.disposition = .expired requiredPosition effectPosition allocated := by
  cases h with
  | compacted completed past compact =>
    obtain ⟨_, rfl⟩ := compactReceipt_eq_ok compact
    exact ⟨_, _, _, rfl⟩

theorem Expires.not_again {later : ℤ} {compact : ReceiptRow} {remaining : Option ReceiptRow}
    (h : Expires now row (some compact)) : ¬ Expires later compact remaining := by
  intro again
  obtain ⟨_, _, _, expired⟩ := h.compact
  cases again with
  | forgotten failed past =>
    rw [expired] at failed
    cases failed
  | compacted completed past compact =>
    rw [expired] at completed
    cases completed

variable {state after : Traced}

section

variable (unique : NamesUnique state.persisted.receipts)
include unique

theorem Settled.transition (unowned : row.owner = none)
    (h : Settled clock row state.persisted) (step : Transition config clock turn state after) :
    Settled clock row after.persisted := by
  cases h with
  | kept member =>
    cases step.terminal_row unique member unowned with
    | inl present => exact .kept present
    | inr expired =>
      obtain ⟨reading, remaining, expires, present⟩ := expired
      cases remaining with
      | none => exact .forgotten reading expires
      | some compact => exact .compacted reading expires (present compact rfl)
  | compacted reading expires member =>
    have compact_unowned := expires.name.2.trans unowned
    cases step.terminal_row unique member compact_unowned with
    | inl kept => exact .compacted reading expires kept
    | inr expired =>
      obtain ⟨_, _, again, _⟩ := expired
      exact absurd again expires.not_again
  | forgotten reading expires => exact .forgotten reading expires

theorem Settled.transitions (member : row ∈ state.persisted.receipts)
    (unowned : row.owner = none) (steps : ReflTransGen (Transition config clock turn) state after) :
    Settled clock row after.persisted := by
  induction steps with
  | refl => exact .kept member
  | tail before step ih => exact Settled.transition (unique.transitions before) unowned ih step

end

/-- A completed receipt, as it was or compacted. -/
inductive Retains (row : ReceiptRow) : ReceiptRow → Prop where
  | same : Retains row row
  | compacted {requiredPosition : ℕ} {effectPosition : Option ℕ} {results : List ResultEntry}
      {expiresAt : ℤ} {receipt : Receipt}
      (completed : row.receipt.disposition =
        .completed requiredPosition effectPosition results expiresAt)
      (compact : compactReceipt row.receipt.core requiredPosition effectPosition results =
        .ok receipt) : Retains row { row with receipt }

variable {later : ReceiptRow}

theorem Retains.name (h : Retains row later) : later.name = row.name ∧ later.owner = row.owner := by
  cases h <;> exact ⟨rfl, rfl⟩

theorem Retains.isCompleted (h : Retains row later)
    (completed : row.receipt.disposition.isCompleted = true) :
    later.receipt.disposition.isCompleted = true := by
  cases h with
  | same => exact completed
  | compacted was compact =>
    obtain ⟨_, rfl⟩ := compactReceipt_eq_ok compact
    rfl

theorem Retains.trans {last : ReceiptRow} (first : Retains row later)
    (second : Retains later last) : Retains row last := by
  cases first with
  | same => exact second
  | compacted completed compact =>
    cases second with
    | same => exact .compacted completed compact
    | compacted again _ =>
      obtain ⟨_, rfl⟩ := compactReceipt_eq_ok compact
      cases again

theorem Settled.retains {persisted : Persisted}
    (h : Settled clock row persisted) (completed : row.receipt.disposition.isCompleted = true) :
    ∃ later ∈ persisted.receipts, Retains row later := by
  cases h with
  | kept member => exact ⟨row, member, .same⟩
  | compacted reading expires member =>
    cases expires with
    | compacted was past compact => exact ⟨_, member, .compacted was compact⟩
  | forgotten reading expires =>
    cases expires with
    | forgotten failed past =>
      rw [failed] at completed
      cases completed

theorem not_executed
    (unique : NamesUnique state.persisted.receipts) (member : row ∈ state.persisted.receipts)
    (unowned : row.owner = none) (completed : row.receipt.disposition.isCompleted = true)
    (steps : ReflTransGen (Transition config clock turn) state after) {execution : Execution}
    (executed : execution ∈ after.history) :
    execution ∈ state.history ∨ execution.name ≠ row.name := by
  induction steps with
  | refl => exact Or.inl executed
  | tail before step ih =>
    cases KeyInvariant.history_cases step with
    | inl quiet => exact ih (quiet.1 ▸ executed)
    | inr executing =>
      obtain ⟨last, history, _, _⟩ := executing
      rw [history] at executed
      cases List.mem_append.mp executed with
      | inl earlier => exact ih earlier
      | inr now =>
        rw [List.mem_singleton.mp now]
        refine Or.inr ?_
        intro same
        have settled := Settled.transitions unique member unowned before
        obtain ⟨later, later_member, retained⟩ := settled.retains completed
        obtain ⟨current_member, current_name⟩ := find?_row last.found
        have names := (retained.name.1.trans same.symm).trans current_name.symm
        have current := (unique.transitions before).eq_of_mem later_member current_member names
        have later_unowned := retained.name.2.trans unowned
        rw [current, last.owned] at later_unowned
        cases later_unowned

end Settled

namespace TransactionStore

variable {store : TransactionStore}

section

variable (unique : NamesUnique store.persisted.receipts)
include unique

theorem call_settled (faults : ℕ → Fault)
    (clock : Clock) (request : TransactionCall) {row : ReceiptRow}
    (member : row ∈ store.persisted.receipts) (unowned : row.owner = none) :
    Settled clock row (store.call config faults clock request).persisted ∧
      (row.receipt.disposition.isCompleted = true →
        ∀ execution ∈ store.executions config faults clock request, execution.name ≠ row.name) := by
  have entered : Enters config clock store.turn _ store _ := call_enters unique faults request
  obtain ⟨draw, steps⟩ := entered.reaches []
  refine ⟨Settled.transitions unique member unowned steps, ?_⟩
  intro completed execution executed
  cases not_executed unique member unowned completed steps executed with
  | inl earlier => cases earlier
  | inr other => exact other

theorem call_names (faults : ℕ → Fault) (clock : Clock) (request : TransactionCall) :
    NamesUnique (store.call config faults clock request).persisted.receipts := by
  have entered : Enters config clock store.turn _ store _ := call_enters unique faults request
  exact entered.reaches.names unique

end

variable {history : List Execution}

section

variable (unique : NamesUnique store.persisted.receipts)
include unique

theorem run_names {later : TransactionStore} (run : Run config store history later) :
    NamesUnique later.persisted.receipts := by
  induction run with
  | refl => exact unique
  | called faults clock request _ ih => exact call_names ih faults clock request

theorem run_retains {later : TransactionStore} (run : Run config store history later)
    {row : ReceiptRow} (member : row ∈ store.persisted.receipts) (unowned : row.owner = none)
    (completed : row.receipt.disposition.isCompleted = true) :
    (∃ last ∈ later.persisted.receipts, Retains row last) ∧
      ∀ execution ∈ history, execution.name ≠ row.name := by
  induction run with
  | refl => exact ⟨⟨row, member, .same⟩, fun _ executed ↦ absurd executed List.not_mem_nil⟩
  | @called between history faults clock request before ih =>
    obtain ⟨⟨last, last_member, retained⟩, unexecuted⟩ := ih
    have last_unowned := retained.name.2.trans unowned
    have last_completed := retained.isCompleted completed
    have law : Settled clock last (between.call config faults clock request).persisted ∧ _ :=
      call_settled (run_names unique before) faults clock request last_member last_unowned
    obtain ⟨settled, quiet⟩ := law
    obtain ⟨final, final_member, finally_retained⟩ := settled.retains last_completed
    refine ⟨⟨final, final_member, retained.trans finally_retained⟩, ?_⟩
    intro execution executed
    cases List.mem_append.mp executed with
    | inl earlier => exact unexecuted execution earlier
    | inr now =>
      rw [← retained.name.1]
      exact quiet last_completed execution now

end

/-- The claims of a handle have different owners, all drawn by earlier entries. -/
structure ClaimsDistinct (config : StoreConfiguration) (store : TransactionStore) : Prop where
  distinct : (store.claims.map Claim.owner).Nodup
  drawn : ∀ claim ∈ store.claims, Drawn config store.turn 0 claim.owner

theorem ClaimsDistinct.call (h : ClaimsDistinct config store)
    (unique : NamesUnique store.persisted.receipts) (faults : ℕ → Fault) (clock : Clock)
    (request : TransactionCall) : ClaimsDistinct config (store.call config faults clock request) := by
  have entered : Enters config clock store.turn _ store _ := call_enters unique faults request
  obtain ⟨draws, draws_distinct, claims⟩ := entered.claims
  have fresh : ((store.claims.map Claim.owner) ++ draws.map (config.uuid store.turn)).Nodup := by
    rw [List.nodup_append]
    refine ⟨h.distinct, ?_, ?_⟩
    · exact draws_distinct.map fun _ _ same ↦ (config.uuid_injective same).2
    · intro owner old owner' new
      obtain ⟨claim, member, owns⟩ := List.mem_map.mp old
      obtain ⟨draw, _, drawn⟩ := List.mem_map.mp new
      rw [← owns, ← drawn]
      exact (h.drawn claim member).ne_uuid draw.zero_le
  refine ⟨claims.nodup fresh, ?_⟩
  intro claim member
  change Drawn config (store.turn + 1) 0 claim.owner
  have owner := claims.subset (List.mem_map_of_mem member)
  cases List.mem_append.mp owner with
  | inl old =>
    obtain ⟨earlier, earlier_member, same⟩ := List.mem_map.mp old
    rw [← same]
    exact (h.drawn earlier earlier_member).next
  | inr new =>
    obtain ⟨draw, _, drawn⟩ := List.mem_map.mp new
    exact ⟨store.turn, draw, drawn.symm, Or.inl (Nat.lt_succ_self _)⟩

theorem ClaimsDistinct.run {epoch : String}
    (run : Run config (created epoch) history store) : ClaimsDistinct config store := by
  induction run with
  | refl => exact ⟨List.nodup_nil, fun _ member ↦ absurd member List.not_mem_nil⟩
  | called faults clock request before ih =>
    exact ih.call (KeyInvariant.run before).unique faults clock request

end TransactionStore

section Reopening

variable {persisted : Persisted}

theorem expireKey_frame {after : Persisted} {principal key : String} {remaining : Option ReceiptRow}
    (h : persisted.expireKey principal key now = .ok (after, remaining)) :
    (after.tables = persisted.tables ∧ after.groups = persisted.groups ∧
      after.position = persisted.position) ∧
      ∀ row ∈ after.receipts, ∃ old ∈ persisted.receipts,
        row.name = old.name ∧ row.owner = old.owner := by
  cases expireKey_cases h with
  | inl kept =>
    rw [kept.1]
    exact ⟨⟨rfl, rfl, rfl⟩, fun row member ↦ ⟨row, member, rfl, rfl⟩⟩
  | inr changed =>
    obtain ⟨old, found, unowned, expires, same⟩ := changed
    subst same
    refine ⟨⟨rfl, rfl, rfl⟩, ?_⟩
    intro row member
    cases mem_replaceTerminal.mp member with
    | inl replaced =>
      obtain ⟨_, _, _, _, remains⟩ := replaced
      subst remains
      exact ⟨old, (find?_row found).1, expires.name⟩
    | inr kept => exact ⟨row, kept.1, rfl, rfl⟩

theorem sweep_frame {swept : Persisted} (h : persisted.sweep now = .ok swept) :
    (swept.tables = persisted.tables ∧ swept.groups = persisted.groups ∧
      swept.position = persisted.position) ∧
      ∀ row ∈ swept.receipts, ∃ old ∈ persisted.receipts,
        row.name = old.name ∧ row.owner = old.owner := by
  unfold Persisted.sweep at h
  suffices folded : ∀ (rows : List ReceiptRow) (persisted : Persisted),
      rows.foldlM (fun persisted row ↦
        if row.owner = none then (persisted.expireKey row.principal row.key now).map Prod.fst
        else .ok persisted) persisted = .ok swept →
      (swept.tables = persisted.tables ∧ swept.groups = persisted.groups ∧
        swept.position = persisted.position) ∧
        ∀ row ∈ swept.receipts, ∃ old ∈ persisted.receipts,
          row.name = old.name ∧ row.owner = old.owner from folded _ _ h
  clear h
  intro rows
  induction rows with
  | nil =>
    intro persisted h
    cases h
    exact ⟨⟨rfl, rfl, rfl⟩, fun row member ↦ ⟨row, member, rfl, rfl⟩⟩
  | cons row rows ih =>
    intro persisted h
    rw [List.foldlM_cons, Except.bind_eq_ok] at h
    obtain ⟨next, step, rest⟩ := h
    obtain ⟨⟨tables, groups, position⟩, later⟩ := ih next rest
    split at step
    · cases expiring : persisted.expireKey row.principal row.key now with
      | error message =>
        rw [expiring] at step
        cases step
      | ok pair =>
        rw [expiring] at step
        cases step
        obtain ⟨⟨tables', groups', position'⟩, origin⟩ := expireKey_frame expiring
        refine ⟨⟨tables.trans tables', groups.trans groups', position.trans position'⟩, ?_⟩
        intro last member
        obtain ⟨between, between_member, name, owner⟩ := later last member
        obtain ⟨old, old_member, old_name, old_owner⟩ := origin between between_member
        exact ⟨old, old_member, name.trans old_name, owner.trans old_owner⟩
    · cases step
      exact ⟨⟨tables, groups, position⟩, later⟩

/-- What an opening makes durable: every pending row is gone, and nothing but receipts changes. -/
structure Reopened (before after : Persisted) : Prop where
  tables : after.tables = before.tables
  groups : after.groups = before.groups
  position : after.position = before.position
  retracted : ∀ row ∈ before.receipts, row.owner ≠ none → after.row row.principal row.key = none
  unowned : ∀ row ∈ after.receipts, row.owner = none

/-- The rows that an opening keeps, before their expiry. -/
def retractPending (persisted : Persisted) : Persisted :=
  { persisted with
    receipts := persisted.receipts.filter fun row ↦ row.owner == none
    creatorFacts := [] }

theorem retractPending_reopened {swept : Persisted} (unique : NamesUnique persisted.receipts)
    (h : (retractPending persisted).sweep now = .ok swept) : Reopened persisted swept := by
  obtain ⟨⟨tables, groups, position⟩, origin⟩ := sweep_frame h
  refine ⟨tables, groups, position, ?_, ?_⟩
  · intro row member owned
    apply find?_row_eq_none.mpr
    intro last last_member same
    obtain ⟨old, old_member, name, _⟩ := origin last last_member
    obtain ⟨stored, unowned⟩ := List.mem_filter.mp old_member
    have current := unique.eq_of_mem stored member (name.symm.trans same)
    rw [current] at unowned
    exact owned (by simpa using unowned)
  · intro row member
    obtain ⟨old, old_member, _, owner⟩ := origin row member
    obtain ⟨_, unowned⟩ := List.mem_filter.mp old_member
    exact owner.trans (by simpa using unowned)

theorem TransactionStore.reopen_cases {store : TransactionStore}
    (unique : NamesUnique store.persisted.receipts) (faults : ℕ → Fault) (clock : Clock) :
    ((store.call config faults clock .reopen).persisted = store.persisted ∧
        (store.call config faults clock .reopen).stopped = true) ∨
      Reopened store.persisted (store.call config faults clock .reopen).persisted := by
  have ran {after : Persisted} {value : Unit}
      (h : (do
        let now ← instant clock 0
        let swept ← (retractPending store.persisted).sweep now
        pure (swept, ()) : Except String (Persisted × Unit)) = .ok (after, value)) :
      Reopened store.persisted after := by
    rw [Except.bind_eq_ok] at h
    obtain ⟨now, _, h⟩ := h
    rw [Except.bind_eq_ok] at h
    obtain ⟨swept, sweeping, done⟩ := h
    cases done
    exact retractPending_reopened unique sweeping
  dsimp only [call, perform, reopen]
  unfold atomic
  cases result : (do
      let now ← instant clock 0
      let swept ← (retractPending store.persisted).sweep now
      pure (swept, ()) : Except String (Persisted × Unit)) with
  | error message =>
    unfold retractPending at result
    dsimp only
    rw [result]
    cases faults 0 with
    | commit durable => exact Or.inl ⟨rfl, rfl⟩
    | _ => exact Or.inl ⟨rfl, rfl⟩
  | ok pair =>
    have reopened := ran result
    unfold retractPending at result
    dsimp only
    rw [result]
    cases faults 0 with
    | none => exact Or.inr reopened
    | throws => exact Or.inl ⟨rfl, rfl⟩
    | statement => exact Or.inl ⟨rfl, rfl⟩
    | commit durable =>
      cases durable with
      | false => exact Or.inl ⟨rfl, rfl⟩
      | true => exact Or.inr reopened

end Reopening

namespace TransactionStore

/-- A claim owns its key while the pending row of the key names its owner. -/
def Owns (store : TransactionStore) (claim : Claim) : Prop :=
  ∃ row, store.persisted.row claim.principal claim.key = some row ∧ row.owner = some claim.owner

/-- The law of the keys in a state that was reached with some executions. -/
structure KeyLaw (config : StoreConfiguration) (history : List Execution)
    (store : TransactionStore) : Prop where
  oneRow : ∀ row ∈ store.persisted.receipts, ∀ other ∈ store.persisted.receipts,
    row.name = other.name → row = other
  oneOwner : ∀ claim ∈ store.claims, ∀ other ∈ store.claims, store.Owns claim → store.Owns other →
    claim.principal = other.principal → claim.key = other.key → claim = other
  /-- Nothing of a key executes after its transaction completed. -/
  atMostOnce : history.Pairwise fun earlier later ↦
    earlier.completed = true → later.name ≠ earlier.name
  completedRow : ∀ execution ∈ history, execution.completed = true →
    ∃ row ∈ store.persisted.receipts, row.name = execution.name ∧ row.owner = none ∧
      row.receipt.disposition.isCompleted = true ∧
      row.receipt.core.transaction = execution.transaction
  /-- A terminal row is kept, compacted after its expiry or forgotten after its expiry. -/
  settled : ∀ (faults : ℕ → Fault) (clock : Clock) (request : TransactionCall),
    ∀ row ∈ store.persisted.receipts, row.owner = none →
      Settled clock row (store.call config faults clock request).persisted
  retained : ∀ (more : List Execution) (later : TransactionStore), Run config store more later →
    ∀ row ∈ store.persisted.receipts, row.owner = none →
      row.receipt.disposition.isCompleted = true →
      (∃ last ∈ later.persisted.receipts, Retains row last) ∧
        ∀ execution ∈ more, execution.name ≠ row.name
  /-- A pending transaction has not been executed, and no group is its effect. -/
  uncommitted : ∀ row ∈ store.persisted.receipts, row.owner ≠ none →
    row.receipt.disposition = .pending ∧
      (∀ execution ∈ history, execution.transaction ≠ row.receipt.core.transaction) ∧
      ∀ group ∈ store.persisted.groups,
        group.body.transaction ≠ row.receipt.core.transaction
  reopened : ∀ (faults : ℕ → Fault) (clock : Clock),
    ((store.call config faults clock .reopen).persisted = store.persisted ∧
        (store.call config faults clock .reopen).stopped = true) ∨
      Reopened store.persisted (store.call config faults clock .reopen).persisted

theorem Owns.owner_eq {store : TransactionStore} {claim other : Claim} (owns : store.Owns claim)
    (other_owns : store.Owns other) (principal : claim.principal = other.principal)
    (key : claim.key = other.key) : claim.owner = other.owner := by
  obtain ⟨row, found, owner⟩ := owns
  obtain ⟨other_row, other_found, other_owner⟩ := other_owns
  rw [principal, key, other_found] at found
  cases found
  exact Option.some.inj (owner.symm.trans other_owner)

/-- Every interleaving of admissions, executions, turns, retractions, expiry and openings keeps the
law of the keys. -/
theorem key_law {history : List Execution} {store : TransactionStore}
    (reachable : Reachable config history store) : KeyLaw config history store := by
  obtain ⟨epoch, run⟩ := reachable
  have invariant := KeyInvariant.run run
  have claims := ClaimsDistinct.run run
  exact
    { oneRow := fun row member other other_member same ↦
        invariant.unique.eq_of_mem member other_member same
      oneOwner := fun claim member other other_member owns other_owns principal key ↦
        List.inj_on_of_nodup_map claims.distinct member other_member
          (owns.owner_eq other_owns principal key)
      atMostOnce := invariant.ordered
      completedRow := invariant.completed
      settled := fun faults clock request row member unowned ↦
        (call_settled invariant.unique faults clock request member unowned).1
      retained := fun more later further row member unowned completed ↦
        run_retains invariant.unique further member unowned completed
      uncommitted := by
        intro row member owned
        have unexecuted := invariant.unexecuted row member owned
        refine ⟨invariant.pending row member owned, unexecuted, ?_⟩
        intro group group_member
        obtain ⟨execution, executed, _, same⟩ := invariant.groups group group_member
        rw [← same]
        exact unexecuted execution executed
      reopened := fun faults clock ↦ reopen_cases invariant.unique faults clock }

theorem length_plainDigest (_ : List String) : (List.replicate 43 'a').length = 43 :=
  List.length_replicate

theorem isTokenChar_plainDigest (_ : List String) (letter : Char)
    (member : letter ∈ List.replicate 43 'a') : isTokenChar letter = true := by
  rw [List.eq_of_mem_replicate member]
  decide

theorem ten_pos : 0 < 10 := by decide

/-- A configuration for requests that refer to nothing. -/
def plainConfiguration : StoreConfiguration where
  scope := "https://example.test/"
  parseRecord _ := none
  canonicalPath _ := true
  tags :=
    { digest := fun _ ↦ List.replicate 43 'a'
      length_digest := length_plainDigest
      alphabet := isTokenChar_plainDigest }
  uuid turn draw := String.ofList (List.replicate (Nat.pair turn draw) 'a')
  uuid_injective {turn turn' draw draw'} same := by
    have lengths := congrArg (fun text ↦ text.toList.length) same
    simp only [String.toList_ofList, List.length_replicate, Nat.pair_eq_pair] at lengths
    exact lengths
  receiptMaximumItems := 10
  receiptMaximumItems_pos := ten_pos
  maximumInducedEvents := 10
  maximumMatchedResources := 10
  eventPageBytes := 1000
  eventGroupBytes := 1000
  groupBytes _ := 1
  eventBytes _ := 1
  envelopeBytes _ := 1
  continuationBytes _ _ := 1
  selectorCapacity _ := none
  normalize batch _ _ _ := .ok
    { identity := batch.text, witnessesJson := "{}", singleton := batch.singleton
      operations := batch.operations, aliases := [], unbound := false }
  dependencyTemplate id member := { attempt := id, text := member.key }
  compareDependencyTemplate _ _ _ _ := .pending
  resolveDependencies _ _ := some []
  dependencyMembers _ := []

theorem call_admitRequest {config : StoreConfiguration} {store : TransactionStore}
    {faults : ℕ → Fault} {clock : Clock} {principal key : String} {batch : PreparedTransaction}
    {controls : TransactionReceivingControls} (running : store.stopped = false)
    (checked : checkKey principal key = .ok ()) (allowed : store.checkMutation = .ok ()) :
    store.call config faults clock (.admitRequest principal key batch controls) =
      { (andThen (store.atomic (faults 0) fun persisted ↦
          admitKey config persisted (instant clock 0) store.turn 0 principal key batch false [] none
            (some controls)) fun after admission ↦
          match admission with
          | .owned claim => ({ after with claims := after.claims ++ [claim] }, .ok admission)
          | .existing _ => (after, .ok (if controls.acceptsJson then admission else .notAcceptable))
          | _ => (after, .ok admission)).1 with turn := store.turn + 1 } := by
  unfold call perform admitRequest
  dsimp only
  rw [running, checked, allowed]
  rfl

def storedBead : StoredResource := { id := "b", bodyJson := "{}", shape := .bead }

def beadRecord (row : StoredResource) : ResourceRecord :=
  { id := "https://example.test/" ++ row.id, type := "note", revision := "r1"
    properties := .object [], metadata := none, revisionProvenance := none, endpoints := none
    ownedLinks := none }

def beadNormalized : NormalizedTransaction :=
  { identity := "[]", witnessesJson := "{}", singleton := false
    operations := [.resource .createBead none (.object [])], aliases := [[]], unbound := false }

def beadConfiguration : StoreConfiguration :=
  { plainConfiguration with
    parseRecord := fun row ↦ some (beadRecord row)
    normalize := fun _ _ _ _ ↦ .ok beadNormalized }

def beadEvaluators : Evaluators where
  admitInput _ _ _ _ := .ok (.object [])
  admitSet _ _ input := .ok input
  select _ _ := .ok []
  mutate _ _ _ _ := .ok
    { writes := [storedBead], deleted := none
      outcome := { outcome := .created, resource := some (beadRecord storedBead), deleted := none
                   source := none, sourceRevision := none } }
  aliasMutation tables _ _ := .ok (tables.aliases, { outcome := "", «alias» := "", target := none })
  locate _ _ _ problem := problem

def beadRequest (principal : String) : TransactionCall :=
  .admitRequest principal "key"
    { text := "[]", singleton := false, operations := beadNormalized.operations }
    { acceptsJson := true, maximumOperations := 10 }

def beadAdmitted (store : TransactionStore) (principal : String) : TransactionStore :=
  let inserted := insertPending beadConfiguration store.persisted store.turn 0 principal "key"
    (some beadNormalized) none
  { store with
    persisted := inserted.1, claims := store.claims ++ [inserted.2], turn := store.turn + 1 }

/-- A store after the execution of what a turn admitted. -/
def beadExecuted (store : TransactionStore) (turn : ℕ) : TransactionStore :=
  store.call beadConfiguration (fun _ ↦ .none) (fun _ ↦ 0)
    (.execute (beadConfiguration.uuid turn 2) beadEvaluators)

def beadCreated : TransactionStore := beadExecuted (beadAdmitted (created "epoch") "alice") 0

theorem checkKey_key {principal : String} (named : principal ≠ "") :
    checkKey principal "key" = .ok () := by
  apply check_of
  refine ⟨named, by decide, by decide, ?_⟩
  intro letter member
  have spelled : "key".toList = ['k', 'e', 'y'] := by decide
  rw [spelled] at member
  simp only [List.mem_cons, List.not_mem_nil, or_false] at member
  rcases member with rfl | rfl | rfl <;> decide

theorem beadAdmitted_eq :
    (created "epoch").call beadConfiguration (fun _ ↦ .none) (fun _ ↦ 0) (beadRequest "alice") =
      beadAdmitted (created "epoch") "alice" :=
  (call_admitRequest rfl (checkKey_key (by decide)) rfl).trans (by decide +kernel)

theorem beadExecuted_run {start store : TransactionStore} {history : List Execution} (turn : ℕ)
    (run : Run beadConfiguration start history store) :
    ∃ more, Run beadConfiguration start more (beadExecuted store turn) :=
  ⟨_, Run.called _ _ _ run⟩

theorem beadCreated_reachable : ∃ history, Reachable beadConfiguration history beadCreated := by
  have run : ∃ history, Run beadConfiguration (created "epoch") history
      (beadAdmitted (created "epoch") "alice") := by
    rw [← beadAdmitted_eq]
    exact ⟨_, Run.called _ _ _ .refl⟩
  obtain ⟨_, run⟩ := run
  obtain ⟨_, executed⟩ := beadExecuted_run 0 run
  exact ⟨_, "epoch", executed⟩

/-- The law of keys on a store whose one key has completed. -/
theorem key_law_created :
    (∃ history, KeyLaw beadConfiguration history beadCreated) ∧
      beadCreated.persisted.receipts.map (fun row ↦ row.receipt.disposition.isCompleted) =
        [true] := by
  obtain ⟨history, reachable⟩ := beadCreated_reachable
  exact ⟨⟨history, key_law reachable⟩, by decide +kernel⟩

end TransactionStore

end Bdp.Transaction
