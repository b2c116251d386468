import Bdp.Transaction.Minimum

/-!
# Authorization of a store

A store is under the initial policy, or under the empty policy of a drawn view. Only a replacement
and an opening change the policy of the handle, so the view of a context says what is visible.
-/

namespace Bdp.Transaction

open Relation

variable {config : StoreConfiguration} {clock : Clock} {turn : ℕ} {state after : Traced}

def Granted (config : StoreConfiguration) (authorization : TransactionAuthorization) : Prop :=
  authorization = initialTransactionAuthorization ∨
    ∃ turn draw, authorization = emptyTransactionAuthorization (config.uuid turn draw)

theorem Granted.eq_of_view (fresh : ∀ turn draw, config.uuid turn draw ≠ INITIAL_TRANSACTION_VIEW)
    {first second : TransactionAuthorization} (left : Granted config first)
    (right : Granted config second) (view : first.authorizationView = second.authorizationView) :
    first = second := by
  cases left with
  | inl initial =>
    cases right with
    | inl other => rw [initial, other]
    | inr emptied =>
      obtain ⟨turn, draw, other⟩ := emptied
      rw [initial, other] at view
      exact absurd view.symm (fresh turn draw)
  | inr emptied =>
    obtain ⟨turn, draw, same⟩ := emptied
    cases right with
    | inl other =>
      rw [same, other] at view
      exact absurd view (fresh turn draw)
    | inr drawn =>
      obtain ⟨_, _, other⟩ := drawn
      rw [same, other] at view ⊢
      exact congrArg emptyTransactionAuthorization view

theorem Granted.eq_initial {authorization : TransactionAuthorization}
    (granted : Granted config authorization) (visible : authorization.allVisible = true) :
    authorization = initialTransactionAuthorization := by
  cases granted with
  | inl initial => exact initial
  | inr emptied =>
    obtain ⟨_, _, same⟩ := emptied
    rw [same] at visible
    cases visible

section

variable (h : Granted config state.persisted.authorizationPolicy)
include h

theorem Granted.transition (step : Transition config clock turn state after) :
    Granted config after.persisted.authorizationPolicy := by
  cases step with
  | @expire principal key reading expired remaining expiring =>
    cases expireKey_cases expiring with
    | inl kept =>
      rw [kept.1]
      exact h
    | inr changed =>
      obtain ⟨_, _, _, _, same⟩ := changed
      rw [same]
      exact h
  | policy entry draw => exact Or.inr ⟨entry, draw, rfl⟩
  | execute executed creatorFacts receiptPages =>
    have kept : executed.effected.authorizationPolicy = state.persisted.authorizationPolicy := by
      unfold ExecutedRow.effected terminalEffect
      split
      · rfl
      · split <;> rfl
    change Granted config executed.effected.authorizationPolicy
    rw [kept]
    exact h
  | _ => exact h

theorem Granted.transitions (steps : ReflTransGen (Transition config clock turn) state after) :
    Granted config after.persisted.authorizationPolicy := by
  induction steps with
  | refl => exact h
  | tail _ step ih => exact ih.transition step

end

namespace TransactionStore

variable {α : Type} {store later : TransactionStore} {history : List Execution}

section Handle

variable {faults : ℕ → Fault}

theorem andThen_authorization {β : Type} {outcome : TransactionStore × Attempt α}
    {next : TransactionStore → α → TransactionStore × Attempt β}
    (first : outcome.1.authorization = store.authorization)
    (second : ∀ value, outcome.2 = .ok value →
      (next outcome.1 value).1.authorization = store.authorization) :
    (andThen outcome next).1.authorization = store.authorization :=
  andThen_induction (P := fun after ↦ after.authorization = store.authorization) first second

variable {fault : Fault}

@[simp]
theorem atomic_authorization {run : Persisted → Except String (Persisted × α)} :
    (store.atomic fault run).1.authorization = store.authorization := by
  unfold atomic
  split <;> rfl

variable {evaluators : Evaluators} {index : ℕ}

theorem executeClaim_authorization {owner : String} :
    (store.executeClaim config faults index clock evaluators owner).1.authorization =
      store.authorization := by
  unfold executeClaim
  split
  · rfl
  · dsimp only [dropClaim]
    unfold cleanupThenThrow
    split
    · dsimp only
      split <;> simp only [atomic_authorization]
    · exact atomic_authorization

theorem cancelSequence_authorization {id : String} :
    (store.cancelSequence fault id).1.authorization = store.authorization := by
  unfold cancelSequence
  split
  · rfl
  · split
    · rfl
    · exact andThen_authorization atomic_authorization fun _ _ ↦ atomic_authorization

variable {member : SequenceMember}
variable {references : ReferenceBindings}

theorem resolveMember_authorization {state : SequenceState} {claim : Claim} :
    (store.resolveMember config fault state member claim references).1.authorization =
      store.authorization := by
  unfold resolveMember
  split
  · rfl
  · split
    · rfl
    · split
      · split <;> rfl
      · exact andThen_authorization atomic_authorization fun _ _ ↦ atomic_authorization

theorem admitMember_authorization {state : SequenceState} :
    (store.admitMember config fault clock state index member references).1.authorization =
      store.authorization := by
  unfold admitMember
  apply andThen_authorization
  · exact atomic_authorization
  · intro value returned
    split <;> exact atomic_authorization

theorem memberTurn_authorization {state : SequenceState} {references : Option ReferenceBindings} :
    (store.memberTurn config faults clock evaluators state index member references).1.authorization =
      store.authorization := by
  have executing {after : TransactionStore} {owner : String}
      (kept : after.authorization = store.authorization) :
      (andThen (after.executeClaim config faults 1 clock evaluators owner) fun done receipt ↦
        (done, .ok (SequenceResult.receipt receipt,
          isCreator member.operation))).1.authorization = store.authorization := by
    have executed : (after.executeClaim config faults 1 clock evaluators owner).1.authorization =
        store.authorization := executeClaim_authorization.trans kept
    apply andThen_authorization executed
    intro value returned
    exact executed
  unfold memberTurn
  dsimp only
  split
  · rfl
  · split
    · rfl
    · exact andThen_authorization atomic_authorization fun _ _ ↦ atomic_authorization
  · split
    · rfl
    · apply andThen_authorization
      · exact resolveMember_authorization
      · intro value returned
        exact executing resolveMember_authorization
  · apply andThen_authorization
    · exact admitMember_authorization
    · intro value returned
      split
      · exact executing admitMember_authorization
      all_goals exact admitMember_authorization

theorem nextSequence_authorization {id : String} :
    (store.nextSequence config faults clock evaluators id).1.authorization =
      store.authorization := by
  have turned {state : SequenceState} {member : SequenceMember} :
      (store.sequenceTurn config faults clock evaluators state member).1.authorization =
        store.authorization := by
    unfold sequenceTurn
    split
    · rfl
    · apply andThen_authorization
      · exact memberTurn_authorization
      · intro value returned
        have recorded {after : TransactionStore} {result : SequenceResult} {wrote : Bool}
            (kept : after.authorization = store.authorization) :
            (after.recordTurn (faults 3) state state.next member wrote result).1.authorization =
              store.authorization := by
          unfold recordTurn
          split
          · exact kept
          · apply andThen_authorization
            · exact atomic_authorization.trans kept
            · intro value returned
              exact atomic_authorization.trans kept
        apply andThen_authorization
        · exact recorded memberTurn_authorization
        · intro result recording
          unfold advanceSequence
          split
          · exact recorded memberTurn_authorization
          · dsimp only
            split
            · apply andThen_authorization
              · exact atomic_authorization.trans (recorded memberTurn_authorization)
              · intro value finished
                exact atomic_authorization.trans (recorded memberTurn_authorization)
            · exact recorded memberTurn_authorization
  unfold nextSequence
  split
  · rfl
  · split
    · rfl
    · split
      · rfl
      · dsimp only
        split
        · split <;> exact cancelSequence_authorization.trans turned
        · exact turned

theorem perform_authorization {request : TransactionCall}
    (granted : Granted config store.authorization)
    (policy : Granted config store.persisted.authorizationPolicy) :
    Granted config (store.perform config faults clock request).authorization := by
  have same {after : TransactionStore} (kept : after.authorization = store.authorization) :
      Granted config after.authorization := kept ▸ granted
  cases request with
  | admitRequest principal key batch controls =>
    apply same
    dsimp only [perform]
    unfold admitRequest
    split
    · rfl
    · apply andThen_authorization
      · exact atomic_authorization
      · intro value returned
        split <;> exact atomic_authorization
  | execute owner evaluators => exact same executeClaim_authorization
  | retract owner =>
    apply same
    dsimp only [perform]
    unfold retract
    split
    · rfl
    · exact atomic_authorization
  | admitSequence principal members =>
    apply same
    dsimp only [perform]
    unfold admitSequence
    split
    · rfl
    · exact andThen_authorization atomic_authorization fun _ _ ↦ atomic_authorization
  | nextSequence id evaluators => exact same nextSequence_authorization
  | cancelSequence id => exact same cancelSequence_authorization
  | maintain background =>
    apply same
    dsimp only [perform]
    unfold maintain
    dsimp only
    split <;> exact atomic_authorization
  | readReceipt principal id =>
    apply same
    dsimp only [perform]
    unfold readReceipt
    split
    · rfl
    · exact atomic_authorization
  | replaceAuthorizationPolicy =>
    dsimp only [perform]
    unfold replaceAuthorizationPolicy
    split
    · exact granted
    · split
      · exact granted
      · apply andThen_induction (P := fun after ↦ Granted config after.authorization)
        · exact same atomic_authorization
        · intro value returned
          exact Or.inr ⟨store.turn, 0, rfl⟩
  | pauseMutationAdmission =>
    dsimp only [perform]
    split <;> exact granted
  | resumeMutationAdmission token =>
    dsimp only [perform]
    split <;> exact granted
  | close => exact granted
  | reopen =>
    dsimp only [perform]
    unfold reopen
    dsimp only
    split
    · rw [atomic_authorization]
      exact policy
    · rw [atomic_authorization]
      exact policy

end Handle

theorem granted_run {epoch : String} (run : Run config (created epoch) history store) :
    Granted config store.authorization ∧ Granted config store.persisted.authorizationPolicy := by
  induction run with
  | refl => exact ⟨Or.inl rfl, Or.inl rfl⟩
  | @called store history faults clock request before ih =>
    have entered : Enters config clock store.turn _ store _ :=
      call_enters (KeyInvariant.run before).unique faults request
    obtain ⟨draw, steps⟩ := entered.reaches history
    refine ⟨?_, ih.2.transitions steps⟩
    have performed : Granted config (store.perform config faults clock request).authorization :=
      perform_authorization ih.1 ih.2
    cases request with
    | reopen => exact performed
    | _ =>
      dsimp only [call]
      split
      · exact ih.1
      · exact performed

end TransactionStore

end Bdp.Transaction
