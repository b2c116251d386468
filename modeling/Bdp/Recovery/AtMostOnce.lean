import Bdp.Recovery.Store

/-!
# At most once

Over every run of the recovery store the effects of a key are committed at most once. What a call
does to the persisted data is said once: it keeps every settled row, and either it leaves the tables
alone or it settles the row of a key that was not settled before.
-/

namespace Bdp.Recovery

open List (mem_singleton mem_map mem_append)

def KeyRow.name (row : KeyRow) : String × String := (row.principal, row.key)

variable {row : KeyRow}

theorem KeyRow.named_iff {principal key : String} :
    row.named principal key = true ↔ row.name = (principal, key) := by
  simp [named, name]

def RowsUnique (rows : List KeyRow) : Prop := (rows.map KeyRow.name).Nodup

def Settled (rows : List KeyRow) (name : String × String) : Prop :=
  ∃ row ∈ rows, row.name = name ∧ row.settled = true

/-- Rows stay unique and settled rows stay settled. -/
structure RowsKept (rows after : List KeyRow) : Prop where
  unique : RowsUnique rows → RowsUnique after
  settled : ∀ name, Settled rows name → Settled after name

namespace RowsKept

variable {rows middle after : List KeyRow}

theorem refl (rows : List KeyRow) : RowsKept rows rows := ⟨id, fun _ ↦ id⟩

theorem trans (first : RowsKept rows middle) (second : RowsKept middle after) :
    RowsKept rows after :=
  ⟨fun h ↦ second.unique (first.unique h), fun name h ↦ second.settled name (first.settled name h)⟩

theorem filter {kept : KeyRow → Bool}
    (h : ∀ row ∈ rows, row.settled = true → kept row = true) : RowsKept rows (rows.filter kept) where
  unique := fun unique ↦ unique.sublist (List.filter_sublist.map _)
  settled := fun _ ⟨row, member, named, settled⟩ ↦
    ⟨row, List.mem_filter.mpr ⟨member, h row member settled⟩, named, settled⟩

theorem map {rewrite : KeyRow → KeyRow} (names : ∀ row, (rewrite row).name = row.name)
    (h : ∀ row ∈ rows, row.settled = true → (rewrite row).settled = true) :
    RowsKept rows (rows.map rewrite) where
  unique := fun unique ↦ by
    have same : KeyRow.name ∘ rewrite = KeyRow.name := funext names
    rw [RowsUnique, List.map_map, same]
    exact unique
  settled := fun name ⟨row, member, named, settled⟩ ↦
    ⟨rewrite row, List.mem_map_of_mem member, (names row).trans named, h row member settled⟩

theorem insertClaim {principal key : String} (attemptId : String)
    (absent : (principal, key) ∉ rows.map KeyRow.name) :
    RowsKept rows (insertClaim rows principal key attemptId) where
  unique := fun unique ↦ by
    rw [RowsUnique, Recovery.insertClaim, List.map_append, List.nodup_append]
    refine ⟨unique, List.nodup_singleton _, ?_⟩
    intro name member other last same
    rw [List.map_singleton, mem_singleton] at last
    rw [same, last] at member
    exact absent member
  settled := fun _ ⟨row, member, named, settled⟩ ↦
    ⟨row, List.mem_append_left _ member, named, settled⟩

end RowsKept

section KeyState

variable {rows : List KeyRow} {principal key : String}

theorem keyState_eq_unknown :
    keyState rows principal key = .unknown ↔ (principal, key) ∉ rows.map KeyRow.name := by
  unfold keyState
  constructor
  · intro h found
    obtain ⟨row, member, named⟩ := mem_map.mp found
    split at h
    case h_1 other _ => exact other.known h
    case h_2 missing =>
      have unnamed := List.find?_eq_none.mp missing row member
      exact unnamed (KeyRow.named_iff.mpr named)
  · intro absent
    split
    case h_1 row found =>
      have named := List.find?_some found
      rw [KeyRow.named_iff] at named
      exact absurd (mem_map.mpr ⟨row, List.mem_of_find?_eq_some found, named⟩) absent
    case h_2 => rfl

theorem keyState_of_mem (unique : RowsUnique rows) (member : row ∈ rows)
    (named : row.name = (principal, key)) : keyState rows principal key = row.state := by
  unfold keyState
  split
  case h_1 other found =>
    have other_named := List.find?_some found
    rw [KeyRow.named_iff] at other_named
    have same := List.inj_on_of_nodup_map unique (List.mem_of_find?_eq_some found) member
      (other_named.trans named.symm)
    rw [same]
  case h_2 missing =>
    exact absurd (KeyRow.named_iff.mpr named) (List.find?_eq_none.mp missing row member)

theorem Settled.keyState (unique : RowsUnique rows) (settled : Settled rows (principal, key)) :
    (∃ outcome, keyState rows principal key = .retained outcome ∧ outcome.effect = .success) ∨
      ∃ fingerprint resolutionsJson,
        Recovery.keyState rows principal key = .expired fingerprint resolutionsJson := by
  obtain ⟨row, member, named, h⟩ := settled
  rw [keyState_of_mem unique member named]
  unfold KeyRow.settled at h
  split at h
  case h_1 outcome state => exact Or.inl ⟨outcome, state, by simpa using h⟩
  case h_2 fingerprint resolutionsJson state => exact Or.inr ⟨fingerprint, resolutionsJson, state⟩
  case h_3 => cases h

end KeyState

theorem not_settled_of_claimed (h : row.isClaimed = true) : row.settled = false := by
  unfold KeyRow.isClaimed at h
  unfold KeyRow.settled
  split at h
  case h_1 attemptId state => rw [state]
  case h_2 => cases h

theorem isClaimed_of_claimedBy {principal attemptId : String}
    (h : claimedBy row principal attemptId = true) : row.isClaimed = true := by
  simp only [claimedBy, Bool.and_eq_true, beq_iff_eq] at h
  simp [KeyRow.isClaimed, h.2]

theorem not_settled_of_claimedBy {principal attemptId : String}
    (h : claimedBy row principal attemptId = true) : row.settled = false :=
  not_settled_of_claimed (isClaimed_of_claimedBy h)

section

variable (rows : List KeyRow)
include rows

theorem rowsKept_deleteClaim (principal key attemptId : String) :
    RowsKept rows (deleteClaim rows principal key attemptId) := by
  apply RowsKept.filter
  intro row _ settled
  cases claimed : claimedBy row principal attemptId with
  | false => simp
  | true => simp [not_settled_of_claimedBy claimed] at settled

theorem rowsKept_abandon (principal attemptId : String) :
    RowsKept rows (rows.filter fun row ↦ !claimedBy row principal attemptId) := by
  apply RowsKept.filter
  intro row _ settled
  cases claimed : claimedBy row principal attemptId with
  | false => rfl
  | true => simp [not_settled_of_claimedBy claimed] at settled

theorem rowsKept_recover : RowsKept rows (rows.filter fun row ↦ !row.isClaimed) := by
  apply RowsKept.filter
  intro row _ settled
  cases claimed : row.isClaimed with
  | false => rfl
  | true => simp [not_settled_of_claimed claimed] at settled

theorem rowsKept_retainClaim (principal key attemptId : String) (outcome : RetainedKey) :
    RowsKept rows (retainClaim rows principal key attemptId outcome) := by
  apply RowsKept.map
  · intro row
    split <;> rfl
  · intro row _ settled
    cases claimed : claimedBy row principal attemptId with
    | false => simpa using settled
    | true => simp [not_settled_of_claimedBy claimed] at settled

theorem rowsKept_expireRows (now : ℤ) : RowsKept rows (expireRows rows now) := by
  have forget : RowsKept rows (rows.filter fun row ↦ !row.forgotten now) := by
    apply RowsKept.filter
    intro row _ settled
    unfold KeyRow.settled at settled
    unfold KeyRow.forgotten
    split at settled
    case h_1 outcome state =>
      rw [state]
      have success : outcome.effect = .success := by simpa using settled
      simp [success]
    case h_2 state => rw [state]; rfl
    case h_3 => cases settled
  apply forget.trans
  apply RowsKept.map
  · intro row
    unfold KeyRow.tombstone
    split
    · split <;> rfl
    · rfl
  · intro row _ settled
    unfold KeyRow.tombstone
    split
    · split
      · rfl
      · exact settled
    · exact settled

theorem rowsKept_claimUnknown (principal attemptId : String)
    {keys : List String} (distinct : keys.Nodup) :
    RowsKept rows (RecoveryStore.claimUnknown rows principal attemptId keys) := by
  -- The keys that are still to come have no new row yet.
  have general (claimed : List KeyRow) (kept : RowsKept rows claimed)
      (absent : ∀ key ∈ keys, (principal, key) ∉ rows.map KeyRow.name →
        (principal, key) ∉ claimed.map KeyRow.name) :
      RowsKept rows (keys.foldl (fun claimed key ↦
        if keyState rows principal key = .unknown then insertClaim claimed principal key attemptId
        else claimed) claimed) := by
    induction keys generalizing claimed with
    | nil => exact kept
    | cons key keys ih =>
      obtain ⟨fresh, rest⟩ := List.nodup_cons.mp distinct
      rw [List.foldl_cons]
      apply ih rest
      · split
        next unknown =>
          exact kept.trans (RowsKept.insertClaim attemptId
            (absent key List.mem_cons_self (keyState_eq_unknown.mp unknown)))
        next => exact kept
      · intro other member missing
        have missing_claimed := absent other (List.mem_cons_of_mem key member) missing
        split
        · intro found
          rw [insertClaim, List.map_append, mem_append] at found
          cases found with
          | inl earlier => exact missing_claimed earlier
          | inr last =>
            have same : other = key := by simpa [KeyRow.name, KeyRow.claim] using last
            exact fresh (same ▸ member)
        · exact missing_claimed
  exact general rows (RowsKept.refl rows) fun _ _ missing ↦ missing

end

namespace RecoveryStore

variable {config : RecoveryConfiguration} {store : RecoveryStore}
variable {α : Type}
variable (fault : Fault)

section

variable (callback : Persisted → Except Thrown (Persisted × α))
include callback

theorem transaction_persisted : (store.transaction fault callback).1.persisted = store.persisted ∨
      ∃ persisted result, callback store.persisted = .ok (persisted, result) ∧
        (store.transaction fault callback).1.persisted = persisted ∧
        store.available = .ok () ∧ (fault = .none ∨ fault = .commit true) := by
  unfold transaction
  cases open_ : store.available with
  | error thrown => exact Or.inl rfl
  | ok value =>
    cases ran : callback store.persisted with
    | error thrown => cases fault <;> exact Or.inl rfl
    | ok pair =>
      cases fault with
      | none => exact Or.inr ⟨pair.1, pair.2, rfl, rfl, rfl, Or.inl rfl⟩
      | statement => exact Or.inl rfl
      | commit durable =>
        cases durable with
        | false => exact Or.inl rfl
        | true => exact Or.inr ⟨pair.1, pair.2, rfl, rfl, rfl, Or.inr rfl⟩

theorem transaction_admissions :
    (store.transaction fault callback).1.admissions = store.admissions ∧
      (store.transaction fault callback).1.attempts = store.attempts := by
  unfold transaction
  split
  · exact ⟨rfl, rfl⟩
  · split <;> exact ⟨rfl, rfl⟩

end

/-- What a call does to the persisted data, and the key whose effects it commits. -/
inductive Change (persisted after : Persisted) : List (String × String) → Prop where
  | kept (tables : after.tables = persisted.tables)
      (rows : RowsKept persisted.rows after.rows) : Change persisted after []
  | committed {name : String × String} (unsettled : ¬ Settled persisted.rows name)
      (rows : RowsKept persisted.rows after.rows) (settles : Settled after.rows name) :
      Change persisted after [name]

theorem Change.refl (persisted : Persisted) : Change persisted persisted [] :=
  .kept rfl (RowsKept.refl _)

theorem change_transaction (callback : Persisted → Except Thrown (Persisted × α))
    (h : ∀ after result, callback store.persisted = .ok (after, result) →
      Change store.persisted after []) :
    Change store.persisted (store.transaction fault callback).1.persisted [] := by
  have durable : (store.transaction fault callback).1.persisted = store.persisted ∨ _ :=
    transaction_persisted fault callback
  cases durable with
  | inl same =>
    rw [same]
    exact Change.refl _
  | inr durable =>
    obtain ⟨after, result, ran, same, _⟩ := durable
    rw [same]
    exact h after result ran

variable {key : String} {admission : Admission}

theorem ownedRows_eq_ok {rows owned : List KeyRow}
    (unique : RowsUnique rows) (h : ownedRows rows admission key = .ok owned) :
    RowsKept rows owned ∧ ¬ Settled rows (admission.principal, key) ∧
      ∃ row ∈ owned, row.name = (admission.principal, key) ∧
        claimedBy row admission.principal admission.attemptId = true := by
  unfold ownedRows at h
  split at h
  case h_1 unknown =>
    have absent := keyState_eq_unknown.mp unknown
    cases h
    refine ⟨RowsKept.insertClaim _ absent, ?_, ?_⟩
    · intro ⟨row, member, named, _⟩
      exact absent (mem_map.mpr ⟨row, member, named⟩)
    · refine ⟨KeyRow.claim admission.principal key admission.attemptId, ?_, rfl, ?_⟩
      · exact List.mem_append_right _ (mem_singleton.mpr rfl)
      · simp [claimedBy, KeyRow.claim]
  case h_2 attemptId claimed =>
    split at h
    next same =>
      cases h
      have known : (admission.principal, key) ∈ rows.map KeyRow.name := by
        apply Decidable.byContradiction
        intro absent
        rw [keyState_eq_unknown.mpr absent] at claimed
        cases claimed
      obtain ⟨row, member, named⟩ := mem_map.mp known
      have state := keyState_of_mem unique member named
      rw [claimed] at state
      refine ⟨RowsKept.refl _, ?_, row, member, named, ?_⟩
      · intro settled
        cases settled.keyState unique with
        | inl retained =>
          obtain ⟨outcome, retained, _⟩ := retained
          rw [claimed] at retained
          cases retained
        | inr expired =>
          obtain ⟨_, _, expired⟩ := expired
          rw [claimed] at expired
          cases expired
      · have principal : row.principal = admission.principal := congrArg Prod.fst named
        simp [claimedBy, principal, ← state, same]
    next => cases h
  case h_3 => cases h

theorem change_memberTransaction
    {evaluate : MemberEvaluation} {persisted after : Persisted} {completion : MemberCompletion}
    (unique : RowsUnique persisted.rows)
    (h : memberTransaction config admission key evaluate persisted = .ok (after, completion)) :
    (∃ rows tables outcome, ownedRows persisted.rows admission key = .ok rows ∧
      evaluate.run config.platform rows persisted.tables = .ok (tables, .retain outcome) ∧
      outcome.effect = .success ∧
      Change persisted after [(admission.principal, key)]) ∨
    (Change persisted after [] ∧ ∀ rows tables outcome,
      ownedRows persisted.rows admission key = .ok rows →
      evaluate.run config.platform rows persisted.tables = .ok (tables, .retain outcome) →
      outcome.effect ≠ .success) := by
  unfold memberTransaction at h
  cases owned : ownedRows persisted.rows admission key with
  | error state =>
    rw [owned] at h
    cases h
    exact Or.inr ⟨Change.refl _, fun _ _ _ h ↦ nomatch h⟩
  | ok rows =>
    obtain ⟨kept, unsettled, row, member, named, claimed⟩ := ownedRows_eq_ok unique owned
    simp only [owned, Except.bind_eq_ok] at h
    obtain ⟨⟨tables, decision⟩, ran, h⟩ := h
    cases decision with
    | release =>
      cases h
      refine Or.inr ⟨.kept rfl (kept.trans (rowsKept_deleteClaim _ _ _ _)), ?_⟩
      intro rows' tables' outcome same ran'
      cases same
      rw [ran] at ran'
      cases ran'
    | retain outcome =>
      simp only [Except.bind_eq_ok, Except.pure_eq_ok_iff] at h
      obtain ⟨_, _, _, _, h⟩ := h
      cases h
      have retained := kept.trans (rowsKept_retainClaim rows admission.principal key
        admission.attemptId (retainedKey config outcome))
      cases effect : outcome.effect with
      | failure =>
        refine Or.inr ⟨.kept (by simp) retained, ?_⟩
        intro rows' tables' outcome' same ran'
        cases same
        rw [ran] at ran'
        cases ran'
        simp [effect]
      | success =>
        refine Or.inl ⟨rows, tables, outcome, rfl, ran, effect, .committed unsettled retained ?_⟩
        have written : row.key == key && claimedBy row admission.principal admission.attemptId := by
          have same : row.key = key := congrArg Prod.snd named
          simp [same, claimed]
        refine ⟨row.retain (retainedKey config outcome), ?_, named, ?_⟩
        · exact mem_map.mpr ⟨row, member, if_pos written⟩
        · simp [KeyRow.settled, KeyRow.retain, retainedKey, effect]

theorem change_call (unique : RowsUnique store.persisted.rows) (fault : Fault) (call : StoreCall) :
    Change store.persisted (store.call config fault call).persisted
      (store.effects config fault call) := by
  cases call with
  | admitMembers principal keys validate =>
    simp only [RecoveryStore.call, effects, admitMembers]
    split
    · exact Change.refl _
    next checked =>
      have distinct : keys.Nodup := by
        simp only [Except.bind_eq_ok, check_eq_ok] at checked
        obtain ⟨_, _, _, h, _⟩ := checked
        exact h.2
      generalize drawn_eq : ({ store with attempts := store.attempts + 1 } : RecoveryStore) = drawn
      have same : store.persisted = drawn.persisted := by rw [← drawn_eq]
      rw [same]
      have change : Change drawn.persisted (drawn.transaction fault _).1.persisted [] :=
        change_transaction fault
        (admitTransaction (config.platform.randomUUID store.attempts) principal keys validate)
        (by
          intro after result ran
          simp only [admitTransaction] at ran
          split at ran
          · cases ran
          · cases ran
            exact .kept rfl (rowsKept_claimUnknown _ _ _ distinct))
      split <;> exact change
  | executeMember admission key evaluate =>
    simp only [RecoveryStore.call, executeMember]
    cases checked : store.checkAdmission admission (some key) with
    | error thrown =>
      simp only [effects, checked]
      exact Change.refl _
    | ok value =>
      cases open_ : store.available with
      | error thrown =>
        simp only [effects, checked, transaction, open_]
        exact Change.refl _
      | ok value =>
        cases ran : memberTransaction config admission key evaluate store.persisted with
        | error thrown =>
          have same : (store.transaction fault
              (memberTransaction config admission key evaluate)).1.persisted = store.persisted := by
            simp only [transaction, open_, ran]
            cases fault <;> rfl
          have no_effects : store.effects config fault (.executeMember admission key evaluate) =
              [] := by
            simp only [effects, checked, open_, ran]
            cases ownedRows store.persisted.rows admission key with
            | error state => rfl
            | ok rows =>
              dsimp only
              cases evaluate.run config.platform rows store.persisted.tables with
              | error thrown => rfl
              | ok pair =>
                cases pair with
                | mk tables decision => cases decision <;> rfl
          rw [same, no_effects]
          exact Change.refl _
        | ok pair =>
          cases change_memberTransaction unique ran with
          | inl success =>
            obtain ⟨rows, tables, outcome, owned, evaluated, effect, change⟩ := success
            simp only [effects, checked, transaction, open_, ran, owned, evaluated, effect, true_and]
            cases fault with
            | none => exact change
            | statement => exact Change.refl _
            | commit durable =>
              cases durable with
              | false => exact Change.refl _
              | true => exact change
          | inr kept =>
            obtain ⟨change, unsuccessful⟩ := kept
            have no_effects : store.effects config fault (.executeMember admission key evaluate) =
                [] := by
              simp only [effects, checked, open_, ran]
              cases owned : ownedRows store.persisted.rows admission key with
              | error state => rfl
              | ok rows =>
                dsimp only
                cases evaluated : evaluate.run config.platform rows store.persisted.tables with
                | error thrown => rfl
                | ok pair =>
                  cases pair with
                  | mk tables decision =>
                    cases decision with
                    | release => rfl
                    | retain outcome =>
                      exact if_neg fun h ↦
                        unsuccessful rows tables outcome owned evaluated h.1
            rw [no_effects]
            simp only [transaction, open_, ran]
            cases fault with
            | none => exact change
            | statement => exact Change.refl _
            | commit durable =>
              cases durable with
              | false => exact Change.refl _
              | true => exact change
  | releaseOwnedClaim admission key =>
    simp only [RecoveryStore.call, effects, releaseOwnedClaim]
    split
    · exact Change.refl _
    · apply change_transaction
      intro after result ran
      cases ran
      exact .kept rfl (rowsKept_deleteClaim _ _ _ _)
  | abandonAttempt admission =>
    simp only [RecoveryStore.call, effects, abandonAttempt]
    split
    · exact Change.refl _
    · apply change_transaction
      intro after result ran
      cases ran
      exact .kept rfl (rowsKept_abandon _ _ _)
  | expire now =>
    simp only [RecoveryStore.call, effects, expire]
    split
    · exact Change.refl _
    · apply change_transaction
      intro after result ran
      cases ran
      exact .kept rfl (rowsKept_expireRows _ _)
  | close => exact Change.refl _
  | reopen =>
    have recovered : Change store.persisted
        { store.persisted with rows := store.persisted.rows.filter fun row ↦ !row.isClaimed } [] :=
      .kept rfl (rowsKept_recover _)
    simp only [RecoveryStore.call, effects, reopen]
    cases fault with
    | none => exact recovered
    | statement => exact Change.refl _
    | commit durable =>
      cases durable with
      | false => exact Change.refl _
      | true => exact recovered

theorem admissions_call (call : StoreCall) :
    store.attempts ≤ (store.call config fault call).attempts ∧
      (∀ admission ∈ (store.call config fault call).admissions, admission ∈ store.admissions ∨
        admission ∈ store.admitted config fault call) ∧
      (store.admitted config fault call = [] ∨
        ∃ admission, store.admitted config fault call = [admission] ∧
          admission.attemptId = config.platform.randomUUID store.attempts ∧
          store.attempts < (store.call config fault call).attempts) := by
  cases call with
  | admitMembers principal keys validate =>
    simp only [RecoveryStore.call, admitted, admitMembers]
    split
    · exact ⟨le_rfl, fun _ ↦ Or.inl, Or.inl rfl⟩
    · generalize ran : ({ store with attempts := store.attempts + 1 } : RecoveryStore).transaction
        fault _ = outcome
      have admissions : (({ store with attempts := store.attempts + 1 } :
          RecoveryStore).transaction fault _).1.admissions = store.admissions ∧ _ :=
        transaction_admissions fault
          (admitTransaction (config.platform.randomUUID store.attempts) principal keys validate)
      obtain ⟨kept, drawn⟩ := ran ▸ admissions
      cases result : outcome.2 with
      | error thrown =>
        simp only [kept, drawn]
        exact ⟨Nat.le_succ _, fun _ ↦ Or.inl, Or.inl trivial⟩
      | ok admission =>
        have attempt : admission.attemptId = config.platform.randomUUID store.attempts := by
          rw [← ran] at result
          unfold transaction at result
          split at result
          · cases result
          · split at result
            next persisted answer _ found =>
              simp only [admitTransaction] at found
              split at found
              · cases found
              · cases found
                cases result
                rfl
            all_goals cases result
        simp only [kept, drawn]
        refine ⟨Nat.le_succ _, ?_, Or.inr ⟨admission, rfl, attempt, Nat.lt_succ_self _⟩⟩
        intro other member
        exact mem_append.mp member
  | executeMember admission key evaluate =>
    simp only [RecoveryStore.call, admitted, executeMember]
    split
    · exact ⟨le_rfl, fun _ ↦ Or.inl, Or.inl trivial⟩
    · have counts : (store.transaction fault _).1.admissions = store.admissions ∧ _ :=
        transaction_admissions fault (memberTransaction config admission key evaluate)
      rw [counts.1, counts.2]
      exact ⟨le_rfl, fun _ ↦ Or.inl, Or.inl trivial⟩
  | releaseOwnedClaim admission key =>
    simp only [RecoveryStore.call, admitted, releaseOwnedClaim]
    split
    · exact ⟨le_rfl, fun _ ↦ Or.inl, Or.inl trivial⟩
    · rw [(transaction_admissions fault _).1, (transaction_admissions fault _).2]
      exact ⟨le_rfl, fun _ ↦ Or.inl, Or.inl trivial⟩
  | abandonAttempt admission =>
    simp only [RecoveryStore.call, admitted, abandonAttempt]
    split
    · exact ⟨le_rfl, fun _ ↦ Or.inl, Or.inl trivial⟩
    · rw [(transaction_admissions fault _).1, (transaction_admissions fault _).2]
      exact ⟨le_rfl, fun _ ↦ Or.inl, Or.inl trivial⟩
  | expire now =>
    simp only [RecoveryStore.call, admitted, expire]
    split
    · exact ⟨le_rfl, fun _ ↦ Or.inl, Or.inl trivial⟩
    · rw [(transaction_admissions fault _).1, (transaction_admissions fault _).2]
      exact ⟨le_rfl, fun _ ↦ Or.inl, Or.inl trivial⟩
  | close => exact ⟨le_rfl, fun _ ↦ Or.inl, Or.inl rfl⟩
  | reopen =>
    simp only [RecoveryStore.call, admitted, reopen]
    cases fault <;> exact ⟨le_rfl, by simp, Or.inl trivial⟩

/-- What holds of the rows and of the admissions after every run. -/
structure KeyInvariant (config : RecoveryConfiguration) (store : RecoveryStore)
    (issued : List Admission) (committed : List (String × String)) : Prop where
  unique : RowsUnique store.persisted.rows
  handed : ∀ admission ∈ store.admissions, admission ∈ issued
  drawn : ∀ admission ∈ issued, ∃ index < store.attempts,
    admission.attemptId = config.platform.randomUUID index
  distinct : (issued.map Admission.attemptId).Nodup
  settled : ∀ name ∈ committed, Settled store.persisted.rows name
  once : committed.Nodup

variable {committed : List (String × String)} {issued : List Admission}

theorem KeyInvariant.call
    (h : KeyInvariant config store issued committed) (fault : Fault) (call : StoreCall) :
    KeyInvariant config (store.call config fault call) (issued ++ store.admitted config fault call)
      (committed ++ store.effects config fault call) := by
  have handing : store.attempts ≤ (store.call config fault call).attempts ∧ _ :=
    admissions_call fault call
  obtain ⟨le, members, admitted⟩ := handing
  have handed : ∀ admission ∈ (store.call config fault call).admissions,
      admission ∈ issued ++ store.admitted config fault call := by
    intro admission member
    cases members admission member with
    | inl earlier => exact List.mem_append_left _ (h.handed admission earlier)
    | inr now => exact List.mem_append_right _ now
  have drawn : (∀ admission ∈ issued ++ store.admitted config fault call,
      ∃ index < (store.call config fault call).attempts,
        admission.attemptId = config.platform.randomUUID index) ∧
      ((issued ++ store.admitted config fault call).map Admission.attemptId).Nodup := by
    cases admitted with
    | inl none =>
      rw [none, List.append_nil]
      refine ⟨?_, h.distinct⟩
      intro admission member
      obtain ⟨index, lt, same⟩ := h.drawn admission member
      exact ⟨index, lt.trans_le le, same⟩
    | inr one =>
      obtain ⟨admission, only, attempt, lt⟩ := one
      rw [only]
      refine ⟨?_, ?_⟩
      · intro other member
        cases mem_append.mp member with
        | inl earlier =>
          obtain ⟨index, lt', same⟩ := h.drawn other earlier
          exact ⟨index, lt'.trans_le le, same⟩
        | inr last =>
          rw [mem_singleton.mp last]
          exact ⟨store.attempts, lt, attempt⟩
      · rw [List.map_append, List.nodup_append]
        refine ⟨h.distinct, List.nodup_singleton _, ?_⟩
        intro attemptId member other last same
        obtain ⟨earlier, earlier_member, earlier_id⟩ := mem_map.mp member
        obtain ⟨index, lt', drawn_id⟩ := h.drawn earlier earlier_member
        rw [List.map_singleton, mem_singleton] at last
        have equal : config.platform.randomUUID index =
            config.platform.randomUUID store.attempts := by
          rw [← drawn_id, earlier_id, same, last, attempt]
        exact lt'.ne (config.platform.randomUUID_injective equal)
  generalize changed : store.effects config fault call = effects
  have changes : Change store.persisted (store.call config fault call).persisted _ :=
    change_call h.unique fault call
  have change := changed ▸ changes
  cases change with
  | kept _ rows =>
    refine ⟨rows.unique h.unique, handed, drawn.1, drawn.2, ?_, ?_⟩
    · simpa using fun principal key member ↦ rows.settled _ (h.settled (principal, key) member)
    · simpa using h.once
  | @committed name unsettled rows settles =>
    refine ⟨rows.unique h.unique, handed, drawn.1, drawn.2, ?_, ?_⟩
    · intro other member
      cases mem_append.mp member with
      | inl earlier => exact rows.settled _ (h.settled other earlier)
      | inr now => exact mem_singleton.mp now ▸ settles
    · rw [List.nodup_append]
      refine ⟨h.once, List.nodup_singleton _, ?_⟩
      intro earlier member other last same
      rw [mem_singleton] at last
      exact unsettled (last ▸ same ▸ h.settled earlier member)

theorem KeyInvariant.of_run {tables : Tables} (run : Run config tables store issued committed) :
    KeyInvariant config store issued committed := by
  induction run with
  | created => constructor <;> simp [created, RowsUnique]
  | called fault call _ ih => exact ih.call fault call

def Owns (rows : List KeyRow) (admission : Admission) (key : String) : Prop :=
  keyState rows admission.principal key = .claimed admission.attemptId

theorem ownedRows_of_settled {rows : List KeyRow} (unique : RowsUnique rows)
    (settled : Settled rows (admission.principal, key)) :
    ownedRows rows admission key = .error (keyState rows admission.principal key) := by
  unfold ownedRows
  cases settled.keyState unique with
  | inl retained =>
    obtain ⟨outcome, state, _⟩ := retained
    simp [state]
  | inr expired =>
    obtain ⟨fingerprint, resolutionsJson, state⟩ := expired
    simp [state]

/-- Over every run: one row and one owner for each key, effects committed at most once and settled
for good, and no effect on the tables of any call that does not commit a success. -/
theorem at_most_once {tables : Tables} {issued : List Admission}
    {committed : List (String × String)} (run : Run config tables store issued committed) :
    RowsUnique store.persisted.rows ∧
      (∀ first ∈ issued, ∀ second ∈ issued, ∀ key, first.principal = second.principal →
        Owns store.persisted.rows first key → Owns store.persisted.rows second key →
          first = second) ∧
      committed.Nodup ∧
      (∀ name ∈ committed, Settled store.persisted.rows name) ∧
      (∀ admission key, (admission.principal, key) ∈ committed →
        ownedRows store.persisted.rows admission key =
          .error (keyState store.persisted.rows admission.principal key)) ∧
      ∀ fault call, store.effects config fault call = [] →
        (store.call config fault call).persisted.tables = store.persisted.tables := by
  have h := KeyInvariant.of_run run
  refine ⟨h.unique, ?_, h.once, h.settled, ?_, ?_⟩
  · intro first first_member second second_member key same owns_first owns_second
    rw [Owns, same] at owns_first
    rw [Owns, owns_first] at owns_second
    exact List.inj_on_of_nodup_map h.distinct first_member second_member
      (KeyState.claimed.inj owns_second)
  · intro admission key member
    exact ownedRows_of_settled h.unique (h.settled _ member)
  · intro fault call none
    have changes : Change store.persisted (store.call config fault call).persisted _ :=
      change_call h.unique fault call
    have change := none ▸ changes
    cases change with
    | kept tables _ => exact tables

/-- A platform whose attempt identities are counted. -/
def countedPlatform : Platform where
  parses _ := true
  sha256 text := text
  randomUUID index := String.ofList (List.replicate (index + 1) 'x')
  randomUUID_injective first second h := by
    have lengths := congrArg (fun text ↦ text.toList.length) h
    simpa using lengths
  patience := 1

def countedConfiguration : RecoveryConfiguration :=
  { platform := countedPlatform, retention := dayMs, day_le_retention := le_rfl }

def emptyTables : Tables :=
  { resources := ∅, identities := ∅, aliases := ∅, installedTypes := ∅, policy := ∅
    «namespace» := "n", nextRevision := 0, nextIdentity := 0 }

/-- An admitted member that succeeds: its key is settled, and a second execution evaluates nothing. -/
theorem at_most_once_member :
    let admitted := (created emptyTables).call countedConfiguration .none
      (.admitMembers "p" ["k"] fun _ ↦ none)
    let admission : Admission := ⟨"x", "p", ["k"], [.unknown]⟩
    let member : StoreCall := .executeMember admission "k"
      (.decide (.retain ⟨"{}", "{}", "{}", .success, 0, dayMs⟩))
    let executed := admitted.call countedConfiguration .none member
    admitted.effects countedConfiguration .none member = [("p", "k")] ∧
      Settled executed.persisted.rows ("p", "k") ∧
      executed.effects countedConfiguration .none member = [] := by
  intro admitted admission member executed
  have first : admitted.effects countedConfiguration .none member = [("p", "k")] := by decide
  have second : executed.effects countedConfiguration .none member = [] := by decide
  have opened : Run countedConfiguration emptyTables _ _ _ := Run.created
  have invariant := at_most_once
    ((opened.called .none (.admitMembers "p" ["k"] fun _ ↦ none)).called .none member)
  refine ⟨first, invariant.2.2.2.1 ("p", "k") ?_, second⟩
  exact List.mem_append_right _ (first ▸ List.mem_singleton.mpr rfl)

end RecoveryStore

end Bdp.Recovery
