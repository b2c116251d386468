import Bdp.Transaction.Transitions

/-!
# Calls as transitions

Every call of the store moves its durable part by transitions, and exactly the executions that the
call reports are among them.
-/

namespace Bdp.Transaction

open Relation
open Bdp.Except (bind_eq_ok)
open List (append_nil nodup_nil map_nil)

variable {config : StoreConfiguration} {clock : Clock} {turn : ℕ}
variable {template : Option DependencyTemplate} {key : String}
variable {reading draw : ℕ}
variable {controls : Option TransactionReceivingControls} {pendingWins : Bool}

section Admission

/-- Transitions that execute nothing and keep their draws between two bounds. -/
def ReachesWithin (config : StoreConfiguration) (clock : Clock) (turn low high : ℕ)
    (start after : Persisted) : Prop :=
  ∀ history draw, draw ≤ low → ∃ draw', draw' ≤ high ∧
    ReflTransGen (Transition config clock turn) ⟨start, history, draw⟩ ⟨after, history, draw'⟩

variable {low middle high : ℕ} {start between after persisted : Persisted}

theorem Reaches.within (h : Reaches config clock turn [] start after) (le : low ≤ high) :
    ReachesWithin config clock turn low high start after := by
  intro history draw bound
  have reached := h history draw
  rw [append_nil] at reached
  exact ⟨draw, bound.trans le, reached⟩

theorem ReachesWithin.trans (first : ReachesWithin config clock turn low middle start between)
    (second : ReachesWithin config clock turn middle high between after) :
    ReachesWithin config clock turn low high start after := by
  intro history draw bound
  obtain ⟨draw', bound', reached⟩ := first history draw bound
  obtain ⟨draw'', bound'', continued⟩ := second history draw' bound'
  exact ⟨draw'', bound'', reached.trans continued⟩

theorem ReachesWithin.drawing (h : ReachesWithin config clock turn low high start after) :
    ReachesDrawing config clock turn [] start after := by
  intro history
  obtain ⟨draw, _, reached⟩ := h history 0 low.zero_le
  rw [append_nil]
  exact ⟨draw, reached⟩

variable {principal : String}

theorem currentRow_reaches {prior : Option ReceiptRow} (unique : NamesUnique persisted.receipts)
    (h : persisted.currentRow principal key (instant clock reading) = .ok (after, prior)) :
    Reaches config clock turn [] persisted after ∧ NamesUnique after.receipts ∧
      after.row principal key = prior := by
  unfold Persisted.currentRow at h
  split at h
  next absent =>
    cases h
    exact ⟨Reaches.refl _, unique, absent⟩
  next =>
    rw [bind_eq_ok] at h
    obtain ⟨now, read, expired⟩ := h
    rw [instant_eq_ok read] at expired
    exact ⟨reaches_expireKey expired, unique.expireKey expired⟩

variable {batch : PreparedTransaction}
variable {references : ReferenceBindings} {claim : Claim}

theorem comparePrior_ne_owned {prior : ReceiptRow} :
    comparePrior config persisted batch prior references ≠ .ok (.owned claim) := by
  intro h
  unfold comparePrior at h
  split at h
  · rw [check_bind_eq_ok] at h
    obtain ⟨_, compared⟩ := h
    split at compared <;> cases compared
  · rw [bind_eq_ok] at h
    obtain ⟨normalized, _, compared⟩ := h
    split at compared <;> cases compared

theorem freshRefusal_ne_owned {controls : TransactionReceivingControls} :
    freshRefusal config batch controls ≠ some (.owned claim) := by
  intro h
  unfold freshRefusal at h
  split at h
  · cases h
  · split at h
    · cases h
    · split at h <;> cases h

theorem reaches_insertPending {normalized : Option NormalizedTransaction}
    (absent : persisted.row principal key = none) :
    ReachesWithin config clock turn draw (draw + 3) persisted
      (insertPending config persisted turn draw principal key normalized template).1 :=
  fun _ _ bound ↦ ⟨draw + 3, le_rfl, .single (Transition.insert bound absent)⟩

theorem admitKey_reaches {admission : TransactionAdmission}
    (unique : NamesUnique persisted.receipts)
    (h : admitKey config persisted (instant clock reading) turn draw principal key batch pendingWins
      references template controls = .ok (after, admission)) :
    ReachesWithin config clock turn draw (draw + 3) persisted after ∧
      ∀ claim, admission = .owned claim → claim.owner = config.uuid turn (draw + 2) := by
  have widened (expired : Persisted) (reached : Reaches config clock turn [] persisted expired) :
      ReachesWithin config clock turn draw (draw + 3) persisted expired :=
    reached.within (draw.le_add_right 3)
  unfold admitKey at h
  rw [bind_eq_ok] at h
  obtain ⟨⟨expired, prior⟩, expiry, h⟩ := h
  obtain ⟨reached, _, found⟩ : Reaches config clock turn [] persisted expired ∧ _ :=
    currentRow_reaches unique expiry
  cases prior with
  | some prior =>
    dsimp only at h
    split at h
    · cases h
      refine ⟨widened _ reached, ?_⟩
      intro claim owned
      cases owned
    · rw [check_bind_eq_ok, bind_eq_ok] at h
      obtain ⟨_, compared, comparison, h⟩ := h
      cases h
      refine ⟨widened _ reached, ?_⟩
      intro claim owned
      subst owned
      exact absurd comparison comparePrior_ne_owned
  | none =>
    dsimp only at h
    rw [bind_eq_ok] at h
    obtain ⟨normalized, _, h⟩ := h
    split at h
    next refusal refused =>
      cases h
      refine ⟨widened _ reached, ?_⟩
      intro claim owned
      subst owned
      obtain ⟨_, _, fresh⟩ := Option.bind_eq_some_iff.mp refused
      exact absurd fresh freshRefusal_ne_owned
    next =>
      cases h
      refine ⟨(reached.within le_rfl).trans (reaches_insertPending found), ?_⟩
      intro claim owned
      cases owned
      rfl

end Admission

namespace TransactionStore

variable {α β : Type} {store : TransactionStore} {start : Persisted}
variable {executed later : List Execution}

section Combinators

variable {run : Persisted → Except String (Persisted × α)} {fault : Fault}

@[simp]
theorem atomic_claims : (store.atomic fault run).1.claims = store.claims := by
  unfold atomic
  split <;> rfl

@[simp]
theorem atomic_turn : (store.atomic fault run).1.turn = store.turn := by
  unfold atomic
  split <;> rfl

theorem atomic_persisted (fault : Fault) (run : Persisted → Except String (Persisted × α)) :
    (store.atomic fault run).1.persisted = store.persisted ∨
      ∃ value, run store.persisted = .ok ((store.atomic fault run).1.persisted, value) := by
  unfold atomic
  split
  next persisted value ran => exact Or.inr ⟨value, ran⟩
  next => exact Or.inl rfl
  next => exact Or.inl rfl
  next durable persisted value ran =>
    cases durable with
    | false => exact Or.inl rfl
    | true => exact Or.inr ⟨value, ran⟩
  next => exact Or.inl rfl

theorem atomic_eq_ok {value : α} (h : (store.atomic fault run).2 = .ok value) :
    run store.persisted = .ok ((store.atomic fault run).1.persisted, value) := by
  unfold atomic at h ⊢
  split at h <;> cases h
  assumption

theorem atomic_reaches (h : ∀ after value, run store.persisted = .ok (after, value) →
      Reaches config clock turn [] store.persisted after) :
    Reaches config clock turn [] store.persisted (store.atomic fault run).1.persisted := by
  cases @atomic_persisted α store fault run with
  | inl kept =>
    rw [kept]
    exact Reaches.refl _
  | inr committed =>
    obtain ⟨value, ran⟩ := committed
    exact h _ value ran

variable {outcome : TransactionStore × Attempt α}

theorem andThen_induction {P : TransactionStore → Prop}
    {next : TransactionStore → α → TransactionStore × Attempt β} (first : P outcome.1)
    (second : ∀ value, outcome.2 = .ok value → P (next outcome.1 value).1) :
    P (andThen outcome next).1 := by
  unfold andThen
  split
  next value returned => exact second value returned
  next => exact first
  next => exact first

theorem cleanupThenThrow_reaches {cleanup : Persisted → Persisted}
    (cleaned : ∀ persisted, Reaches config clock turn [] persisted (cleanup persisted))
    (h : Reaches config clock turn executed start outcome.1.persisted) :
    Reaches config clock turn executed start
      (cleanupThenThrow outcome fault cleanup).1.persisted := by
  have swept : Reaches config clock turn [] outcome.1.persisted
      (outcome.1.atomic fault fun persisted ↦ .ok (cleanup persisted, ())).1.persisted := by
    apply atomic_reaches
    intro after value ran
    cases ran
    exact cleaned _
  have after := h.trans swept
  rw [append_nil] at after
  unfold cleanupThenThrow
  split
  · dsimp only
    split
    · exact after
    · exact after
  · exact h

end Combinators

variable {claim : Claim} {index : ℕ}
variable {owner : String}

section Execution

variable {persisted : Persisted}
variable {receipt : Receipt}

theorem recordCreator_eq_ok {recorded : Persisted}
    (h : recordCreator claim receipt persisted = .ok recorded) :
    ∃ creatorFacts, recorded = { persisted with creatorFacts } := by
  unfold recordCreator at h
  split at h
  · cases h
    exact ⟨_, rfl⟩
  · rw [bind_eq_ok] at h
    obtain ⟨fact, _, written⟩ := h
    unfold writeFact at written
    rw [check_bind_eq_ok] at written
    cases written.2
    exact ⟨_, rfl⟩

variable {evaluators : Evaluators}

theorem evaluateClaim_eq_ok {current : ReceiptRow} {evaluation : BatchEvaluation} (expiresAt : ℤ)
    (h : evaluateClaim config evaluators clock claim persisted = .ok (current, evaluation)) :
    ∃ executed : ExecutedRow config persisted, executed.claim = claim ∧
      executed.current = current ∧ executed.evaluation = evaluation ∧
      executed.expiresAt = expiresAt := by
  unfold evaluateClaim at h
  rw [bind_eq_ok] at h
  obtain ⟨row, found, h⟩ := h
  rw [check_bind_eq_ok, bind_eq_ok] at h
  obtain ⟨owned, normalized, _, h⟩ := h
  rw [check_bind_eq_ok, check_bind_eq_ok, bind_eq_ok] at h
  obtain ⟨_, bounded, now, _, h⟩ := h
  rw [bind_eq_ok] at h
  obtain ⟨terminal, evaluated, done⟩ := h
  cases done
  exact ⟨{ claim, current, evaluators, normalized, now, expiresAt, evaluation
           found := require_eq_ok.mp found
           owned, bounded, evaluated }, rfl, rfl, rfl, rfl⟩

theorem terminalEffect_receiptPages (persisted : Persisted) (core : ReceiptCore) (expiresAt : ℤ)
    (evaluation : BatchEvaluation) :
    (terminalEffect persisted core expiresAt evaluation).1.receiptPages =
      persisted.receiptPages := by
  unfold terminalEffect
  split
  · rfl
  · split <;> rfl

theorem executeTransaction_reaches {after : Persisted}
    (h : executeTransaction config evaluators clock turn claim persisted = .ok (after, receipt)) :
    ∃ current evaluation,
      evaluateClaim config evaluators clock claim persisted = .ok (current, evaluation) ∧
      Reaches config clock turn
        [{ principal := claim.principal
           key := claim.key
           transaction := receipt.core.transaction
           completed := receipt.disposition.isCompleted
           events := evaluation.events }] persisted after := by
  unfold executeTransaction at h
  rw [bind_eq_ok] at h
  obtain ⟨⟨current, evaluation⟩, evaluated, h⟩ := h
  dsimp only at h
  rw [bind_eq_ok] at h
  obtain ⟨finished, _, h⟩ := h
  rw [bind_eq_ok] at h
  obtain ⟨recorded, record, done⟩ := h
  obtain ⟨creatorFacts, same⟩ := recordCreator_eq_ok record
  subst same
  cases done
  obtain ⟨executed, same_claim, same_current, same_evaluation, same_expiry⟩ :=
    evaluateClaim_eq_ok (finished + day) evaluated
  subst same_claim same_current same_evaluation
  refine ⟨_, _, evaluated, ?_⟩
  rw [← same_expiry]
  intro history draw
  exact .single (@Transition.execute config clock turn ⟨persisted, history, draw⟩ executed
    creatorFacts _ (congrArg (· ++ _) (terminalEffect_receiptPages _ _ _ _)))

theorem executeClaim_reaches {faults : ℕ → Fault} :
    Reaches config clock store.turn (store.claimExecutions config (faults index) clock evaluators owner)
      store.persisted
      (store.executeClaim config faults index clock evaluators owner).1.persisted := by
  unfold executeClaim claimExecutions
  split
  · exact Reaches.refl _
  next claim found =>
    apply cleanupThenThrow_reaches (fun persisted ↦ reaches_release persisted _ _ _)
    unfold atomic
    cases ran : executeTransaction config evaluators clock store.turn claim store.persisted with
    | error message =>
      cases faults index with
      | commit durable => cases durable <;> exact Reaches.refl _
      | _ => exact Reaches.refl _
    | ok result =>
      obtain ⟨current, evaluation, evaluated, reached⟩ : ∃ current evaluation,
          evaluateClaim config evaluators clock claim store.persisted = .ok (current, evaluation) ∧
          Reaches config clock store.turn _ store.persisted result.1 :=
        executeTransaction_reaches ran
      rw [evaluated]
      cases faults index with
      | none => exact reached
      | throws => exact Reaches.refl _
      | statement => exact Reaches.refl _
      | commit durable =>
        cases durable with
        | false => exact Reaches.refl _
        | true => exact reached

end Execution

/-- A step inside an entry: the durable part moves by transitions, and claims are only dropped. -/
structure Follows (config : StoreConfiguration) (clock : Clock) (turn : ℕ)
    (executed : List Execution) (before after : TransactionStore) : Prop where
  reaches : Reaches config clock turn executed before.persisted after.persisted
  claims : (after.claims.map Claim.owner).Sublist (before.claims.map Claim.owner)

/-- A whole entry: claims are dropped, and new ones have identifiers that the entry drew. -/
structure Enters (config : StoreConfiguration) (clock : Clock) (turn : ℕ)
    (executed : List Execution) (before after : TransactionStore) : Prop where
  reaches : ReachesDrawing config clock turn executed before.persisted after.persisted
  claims : ∃ draws : List ℕ, draws.Nodup ∧ (after.claims.map Claim.owner).Sublist
    (before.claims.map Claim.owner ++ draws.map (config.uuid turn))

section Steps

variable {before between after : TransactionStore} {executed later : List Execution}

theorem Follows.refl (store : TransactionStore) : Follows config clock turn [] store store :=
  ⟨Reaches.refl _, List.Sublist.refl _⟩

section

variable (first : Follows config clock turn executed before between)
include first

theorem Follows.trans (second : Follows config clock turn later between after) :
    Follows config clock turn (executed ++ later) before after :=
  ⟨first.reaches.trans second.reaches, second.claims.trans first.claims⟩

theorem Follows.andQuiet (second : Follows config clock turn [] between after) :
    Follows config clock turn executed before after := by
  have both := first.trans second
  rwa [append_nil] at both

end

theorem Follows.entering (h : Follows config clock turn executed before after) :
    Enters config clock turn executed before after :=
  ⟨h.reaches.drawing, [], nodup_nil, by simpa using h.claims⟩

section

variable (first : Enters config clock turn executed before between)
include first

theorem Enters.follow (second : Follows config clock turn later between after) :
    Enters config clock turn (executed ++ later) before after :=
  have ⟨draws, distinct, claims⟩ := first.claims
  ⟨first.reaches.trans second.reaches, draws, distinct, second.claims.trans claims⟩

theorem Enters.andQuiet (second : Follows config clock turn [] between after) :
    Enters config clock turn executed before after := by
  have both := first.follow second
  rwa [append_nil] at both

end

theorem Follows.handle (persisted : after.persisted = before.persisted)
    (claims : (after.claims.map Claim.owner).Sublist (before.claims.map Claim.owner)) :
    Follows config clock turn [] before after := by
  refine ⟨?_, claims⟩
  rw [persisted]
  exact Reaches.refl _

variable {fault : Fault}

theorem atomic_follows {run : Persisted → Except String (Persisted × α)}
    (h : ∀ after value, run store.persisted = .ok (after, value) →
      Reaches config clock turn [] store.persisted after) :
    Follows config clock turn [] store (store.atomic fault run).1 := by
  refine ⟨atomic_reaches h, ?_⟩
  rw [atomic_claims]

theorem executeClaim_follows {faults : ℕ → Fault} {evaluators : Evaluators}
    (entry : store.turn = turn) :
    Follows config clock turn (store.claimExecutions config (faults index) clock evaluators owner)
      store (store.executeClaim config faults index clock evaluators owner).1 := by
  refine ⟨entry ▸ executeClaim_reaches, ?_⟩
  unfold executeClaim
  split
  · exact List.Sublist.refl _
  next claim found =>
    have kept {outcome : TransactionStore × Attempt Receipt} {fault : Fault}
        {cleanup : Persisted → Persisted} :
        (cleanupThenThrow outcome fault cleanup).1.claims = outcome.1.claims := by
      unfold cleanupThenThrow
      split
      · dsimp only
        split <;> simp only [atomic_claims]
      · rfl
    dsimp only [dropClaim]
    rw [kept, atomic_claims]
    exact List.filter_sublist.map _

variable {member : SequenceMember} {state : SequenceState}
variable {references : ReferenceBindings}

theorem resolveMember_turn :
    (store.resolveMember config fault state member claim references).1.turn = store.turn := by
  unfold resolveMember
  split
  · rfl
  · split
    · rfl
    · split
      · split <;> rfl
      · apply andThen_induction (P := fun after ↦ after.turn = store.turn) atomic_turn
        intro value returned
        exact atomic_turn

theorem resolveMember_follows : Follows config clock turn [] store
      (store.resolveMember config fault state member claim references).1 := by
  unfold resolveMember
  split
  · exact Follows.refl _
  · split
    · exact Follows.refl _
    · split
      · split <;> exact Follows.refl _
      next template _ =>
        have bound : Follows config clock turn [] store
            (store.atomic fault fun persisted ↦ do
              check (member.deferred = true ∧ template = config.dependencyTemplate state.id member)
                "sequence deferral template differs"
              let normalized ← config.normalize member.request (persisted.resolveAlias config)
                none references
              pure (persisted.bindOwned claim normalized, normalized)).1 := by
          apply atomic_follows
          intro after normalized ran
          rw [check_bind_eq_ok, bind_eq_ok] at ran
          obtain ⟨_, bound, _, done⟩ := ran
          cases done
          exact Reaches.single fun _ _ ↦ Transition.bind claim normalized
        apply andThen_induction bound
        intro normalized returned
        refine bound.andQuiet (Follows.handle rfl ?_)
        rw [List.map_map]
        have same : (Claim.owner ∘ fun other : Claim ↦
            if other.owner = claim.owner then { other with normalized := some normalized }
            else other) = Claim.owner := by
          funext other
          dsimp only [Function.comp]
          split <;> rfl
        rw [same]

theorem reaches_releaseSequence (claims : List Claim) (id : String) (persisted : Persisted) :
    Reaches config clock turn [] persisted (releaseSequence claims id persisted) := by
  have released : Reaches config clock turn [] persisted (claims.foldl (fun persisted claim ↦
      persisted.deleteOwned claim.principal claim.key claim.owner) persisted) := by
    induction claims generalizing persisted with
    | nil => exact Reaches.refl _
    | cons claim claims ih => exact (reaches_release _ _ _ _).trans (ih _)
  exact released.trans (reaches_facts _ _)

theorem cancelSequence_follows {id : String} :
    Follows config clock turn [] store (store.cancelSequence fault id).1 := by
  unfold cancelSequence
  split
  · exact Follows.refl _
  next state found =>
    split
    · exact Follows.refl _
    · have released : Follows config clock turn [] store
          (store.atomic fault fun persisted ↦
            .ok (releaseSequence (store.ownedClaims state) id persisted, ())).1 := by
        apply atomic_follows
        intro after value ran
        cases ran
        exact reaches_releaseSequence _ _ _
      apply andThen_induction released
      intro value returned
      exact released.andQuiet (Follows.handle rfl (List.filter_sublist.map _))

variable {result : SequenceResult}

theorem recordTurn_follows {wroteCreator : Bool} : Follows config clock turn [] store
      (store.recordTurn fault state index member wroteCreator result).1 := by
  unfold recordTurn
  split
  · exact Follows.refl _
  · have recorded : Follows config clock turn [] store
        (store.atomic fault fun persisted ↦ do
          let fact ← turnFact member.operation result
          let recorded ← writeFact persisted state.id index fact
          pure (recorded, ())).1 := by
      apply atomic_follows
      intro after value ran
      rw [bind_eq_ok] at ran
      obtain ⟨fact, _, ran⟩ := ran
      rw [bind_eq_ok] at ran
      obtain ⟨recorded, written, done⟩ := ran
      cases done
      exact reaches_writeFact written
    exact andThen_induction recorded fun _ _ ↦ recorded

theorem advanceSequence_follows {id : String} :
    Follows config clock turn [] store (store.advanceSequence fault id result).1 := by
  unfold advanceSequence
  split
  · exact Follows.refl _
  next state found =>
    dsimp only
    split
    · have forgotten (finished : TransactionStore) : Follows config clock turn [] finished
          (finished.atomic fault fun persisted ↦ .ok ({ persisted with
            creatorFacts := persisted.creatorFacts.filter fun row ↦ row.attempt != id }, ())).1 := by
        apply atomic_follows
        intro after value ran
        cases ran
        exact reaches_facts _ _
      have advanced : Follows config clock turn [] store
          { store.setSequence { state with next := state.next + 1 } with
            activeSequences := (store.setSequence { state with
              next := state.next + 1 }).activeSequences.filter (· != id) } :=
        Follows.handle rfl (List.Sublist.refl _)
      have both := advanced.trans (forgotten _)
      exact andThen_induction both fun _ _ ↦ both
    · exact Follows.handle rfl (List.Sublist.refl _)

end Steps

section Entries

variable (unique : NamesUnique store.persisted.receipts)
variable {fault : Fault} {references : ReferenceBindings} {principal : String}
variable {batch : PreparedTransaction}

include unique in
theorem admitting_enters
    {next : TransactionStore → TransactionAdmission → TransactionStore × Attempt α}
    (persisted : ∀ between admission, (next between admission).1.persisted = between.persisted)
    (claims : ∀ between admission, (next between admission).1.claims.map Claim.owner =
      between.claims.map Claim.owner ++ match admission with
        | .owned claim => [claim.owner]
        | _ => []) :
    Enters config clock turn [] store
      (andThen (store.atomic fault fun persisted ↦
        admitKey config persisted (instant clock reading) turn draw principal key batch pendingWins
          references template controls) next).1 := by
  have kept : ReachesDrawing config clock turn [] store.persisted
      (store.atomic fault fun persisted ↦
        admitKey config persisted (instant clock reading) turn draw principal key batch pendingWins
          references template controls).1.persisted := by
    cases @atomic_persisted _ store fault (fun persisted ↦
        admitKey config persisted (instant clock reading) turn draw principal key batch pendingWins
          references template controls) with
    | inl same =>
      rw [same]
      exact (Reaches.refl _).drawing
    | inr committed =>
      obtain ⟨admission, ran⟩ := committed
      exact (admitKey_reaches unique ran).1.drawing
  unfold andThen
  split
  next admission returned =>
    have ran := atomic_eq_ok returned
    obtain ⟨_, fresh⟩ := admitKey_reaches unique ran
    refine ⟨by rwa [persisted], [draw + 2], List.nodup_singleton _, ?_⟩
    rw [claims, atomic_claims]
    cases admission with
    | owned claim =>
      dsimp only
      rw [fresh claim rfl]
      exact List.Sublist.refl _
    | _ => exact List.Sublist.append_left (List.nil_sublist _) _
  all_goals
    refine ⟨kept, [], nodup_nil, ?_⟩
    rw [atomic_claims]
    simp

variable {faults : ℕ → Fault}

include unique in
theorem admit_enters {controls : TransactionReceivingControls} :
    Enters config clock store.turn [] store
      (store.admitRequest config faults clock principal key batch controls).1 := by
  unfold admitRequest
  split
  · exact (Follows.refl _).entering
  · apply admitting_enters unique
    · intro between admission
      split <;> rfl
    · intro between admission
      cases admission <;> simp

variable {member : SequenceMember} {state : SequenceState}

theorem admitMember_turn :
    (store.admitMember config fault clock state index member references).1.turn = store.turn := by
  unfold admitMember
  apply andThen_induction (P := fun after ↦ after.turn = store.turn) atomic_turn
  intro admission returned
  cases admission <;> exact atomic_turn

include unique in
theorem admitMember_enters : Enters config clock store.turn [] store
      (store.admitMember config fault clock state index member references).1 := by
  unfold admitMember
  apply admitting_enters unique
  · intro between admission
    cases admission <;> rfl
  · intro between admission
    cases admission <;> simp [setSequence]

variable {evaluators : Evaluators}

include unique in
theorem memberTurn_enters {references : Option ReferenceBindings}
    (resolved : store.memberReferences config state member = .ok references) :
    Enters config clock store.turn
      (store.turnExecutions config faults clock evaluators state member) store
      (store.memberTurn config faults clock evaluators state state.next member references).1 := by
  unfold memberTurn turnExecutions
  rw [resolved]
  cases references with
  | none =>
    cases state.owned.lookup state.next with
    | none => exact (Follows.refl _).entering
    | some owner =>
      dsimp only
      split
      · exact (Follows.refl _).entering
      next claim found =>
        have released : Follows config clock store.turn [] store
            (store.atomic (faults 0) fun persisted ↦
              .ok (persisted.deleteOwned claim.principal claim.key claim.owner, ())).1 := by
          apply atomic_follows
          intro after value ran
          cases ran
          exact reaches_release _ _ _ _
        have turned : Follows config clock store.turn [] store
            (andThen (store.atomic (faults 0) fun persisted ↦
                .ok (persisted.deleteOwned claim.principal claim.key claim.owner, ()))
              fun after _ ↦ (after.dropClaim owner, Attempt.ok (SequenceResult.transient, false))).1 :=
          andThen_induction released fun _ _ ↦
            released.andQuiet (Follows.handle rfl (List.filter_sublist.map _))
        exact turned.entering
  | some references =>
    cases state.owned.lookup state.next with
    | none =>
      dsimp only
      have admitted : Enters config clock store.turn [] store
          (store.admitMember config (faults 0) clock state state.next member references).1 :=
        admitMember_enters unique
      unfold andThen
      cases outcome : (store.admitMember config (faults 0) clock state state.next member
          references).2 with
      | thrown message => exact admitted
      | fenced => exact admitted
      | ok admission =>
        cases admission with
        | owned claim =>
          have executed : Follows config clock store.turn _ _
              ((store.admitMember config (faults 0) clock state state.next member
                references).1.executeClaim config faults 1 clock evaluators claim.owner).1 :=
            executeClaim_follows admitMember_turn
          dsimp only
          split <;> exact admitted.follow executed
        | _ => exact admitted
    | some owner =>
      dsimp only
      split
      · exact (Follows.refl _).entering
      next claim found =>
        have bound : Follows config clock store.turn [] store
            (store.resolveMember config (faults 0) state member claim references).1 :=
          resolveMember_follows
        unfold andThen
        cases outcome : (store.resolveMember config (faults 0) state member claim
            references).2 with
        | thrown message => exact bound.entering
        | fenced => exact bound.entering
        | ok value =>
          have executed : Follows config clock store.turn _ _
              ((store.resolveMember config (faults 0) state member claim
                references).1.executeClaim config faults 1 clock evaluators owner).1 :=
            executeClaim_follows resolveMember_turn
          dsimp only
          split <;> exact (bound.trans executed).entering

include unique in
theorem sequenceTurn_enters : Enters config clock store.turn
      (store.turnExecutions config faults clock evaluators state member) store
      (store.sequenceTurn config faults clock evaluators state member).1 := by
  unfold sequenceTurn
  split
  next message failed =>
    have none_executed : store.turnExecutions config faults clock evaluators state member = [] := by
      unfold turnExecutions
      rw [failed]
    rw [none_executed]
    exact (Follows.refl _).entering
  next references resolved =>
    have turned : Enters config clock store.turn _ store
        (store.memberTurn config faults clock evaluators state state.next member references).1 :=
      memberTurn_enters unique resolved
    apply andThen_induction turned
    intro turn returned
    have recorded : Enters config clock store.turn _ store
        ((store.memberTurn config faults clock evaluators state state.next member
          references).1.recordTurn (faults 3) state state.next member turn.2 turn.1).1 :=
      turned.andQuiet recordTurn_follows
    apply andThen_induction recorded
    intro result _
    exact recorded.andQuiet advanceSequence_follows

variable {id : String}

include unique in
theorem nextSequence_enters (running : store.stopped = false) : Enters config clock store.turn
      (store.executions config faults clock (.nextSequence id evaluators)) store
      (store.nextSequence config faults clock evaluators id).1 := by
  unfold nextSequence executions
  simp only [running, Bool.false_eq_true, if_false]
  cases store.sequenceOf id with
  | none => exact (Follows.refl _).entering
  | some state =>
    dsimp only
    by_cases cancelled : state.cancelled = true
    · rw [if_pos cancelled, if_pos cancelled]
      exact (Follows.refl _).entering
    · rw [if_neg cancelled, if_neg cancelled]
      cases state.members[state.next]? with
      | none => exact (Follows.refl _).entering
      | some member =>
        have turned : Enters config clock store.turn _ store
            (store.sequenceTurn config faults clock evaluators state member).1 :=
          sequenceTurn_enters unique
        dsimp only
        split
        next message thrown =>
          have cancelled : Enters config clock store.turn _ store
              ((store.sequenceTurn config faults clock evaluators state member).1.cancelSequence
                (faults 5) id).1 := turned.andQuiet cancelSequence_follows
          split
          · exact cancelled
          · exact cancelled.andQuiet (Follows.handle rfl (List.Sublist.refl _))
        next => exact turned

variable {after persisted : Persisted} {owned' owned : List (ℕ × Claim)}

theorem admitUnknown_reaches (unique : NamesUnique persisted.receipts)
    (h : admitUnknown config clock turn principal id (persisted, owned) (member, index) =
      .ok (after, owned')) :
    ReachesWithin config clock turn (3 * index + 1) (3 * index + 4) persisted after ∧
      ∃ draws : List ℕ, (draws = [] ∨ draws = [3 * index + 3]) ∧
        owned'.map (fun entry ↦ entry.2.owner) =
          owned.map (fun entry ↦ entry.2.owner) ++ draws.map (config.uuid turn) := by
  have tracked : Reaches config clock turn [] persisted (trackCreator persisted id member index) := by
    unfold trackCreator
    split
    · exact reaches_facts _ _
    · exact Reaches.refl _
  have tracked_unique : NamesUnique (trackCreator persisted id member index).receipts :=
    tracked.names unique
  unfold admitUnknown at h
  dsimp only at h
  rw [bind_eq_ok] at h
  obtain ⟨⟨expired, existing⟩, lookup, h⟩ := h
  obtain ⟨reached, expired_unique, _⟩ : Reaches config clock turn [] _ expired ∧ _ :=
    currentRow_reaches tracked_unique lookup
  have before : ReachesWithin config clock turn (3 * index + 1) (3 * index + 1) persisted expired :=
    (tracked.trans reached).within le_rfl
  cases existing with
  | some row =>
    cases h
    refine ⟨before.trans ((Reaches.refl _).within (by omega)), [], Or.inl rfl, ?_⟩
    rw [map_nil, append_nil]
  | none =>
    dsimp only at h
    rw [bind_eq_ok] at h
    obtain ⟨⟨admitted, admission⟩, admitting, h⟩ := h
    obtain ⟨admits, fresh⟩ := admitKey_reaches expired_unique admitting
    cases admission with
    | owned claim =>
      cases h
      refine ⟨before.trans admits, [3 * index + 3], Or.inr rfl, ?_⟩
      rw [List.map_append, List.map_singleton, List.map_singleton, fresh claim rfl]
    | _ =>
      cases h
      refine ⟨before.trans admits, [], Or.inl rfl, ?_⟩
      rw [map_nil, append_nil]

variable {members : List SequenceMember}

theorem admitMembers_reaches (unique : NamesUnique persisted.receipts)
    (h : (members.zipIdx index).foldlM (admitUnknown config clock turn principal id)
      (persisted, owned) = .ok (after, owned')) :
    ReachesWithin config clock turn (3 * index + 1) (3 * (index + members.length) + 1) persisted
        after ∧
      ∃ draws : List ℕ, draws.Nodup ∧ (∀ draw ∈ draws, 3 * index + 3 ≤ draw) ∧
        owned'.map (fun entry ↦ entry.2.owner) =
          owned.map (fun entry ↦ entry.2.owner) ++ draws.map (config.uuid turn) := by
  induction members generalizing index persisted owned with
  | nil =>
    cases h
    refine ⟨(Reaches.refl _).within le_rfl, [], nodup_nil, nofun, ?_⟩
    rw [map_nil, append_nil]
  | cons member members ih =>
    rw [List.zipIdx_cons, List.foldlM_cons, bind_eq_ok] at h
    obtain ⟨⟨between, extended⟩, step, rest⟩ := h
    obtain ⟨reached, draws, drawn, claimed⟩ := admitUnknown_reaches unique step
    obtain ⟨later, more, distinct, above, claimed_later⟩ := ih (reached.drawing.names unique) rest
    refine ⟨?_, draws ++ more, ?_, ?_, ?_⟩
    · have bound : 3 * (index + 1 + members.length) + 1 =
          3 * (index + (member :: members).length) + 1 := by
        rw [List.length_cons]
        omega
      rw [← bound]
      exact reached.trans later
    · cases drawn with
      | inl none =>
        subst none
        exact distinct
      | inr one =>
        subst one
        refine List.nodup_cons.mpr ⟨?_, distinct⟩
        intro member
        have := above _ member
        omega
    · intro draw member
      cases List.mem_append.mp member with
      | inl first =>
        cases drawn with
        | inl none =>
          subst none
          cases first
        | inr one =>
          subst one
          rw [List.mem_singleton.mp first]
      | inr later_draw =>
        have := above draw later_draw
        omega
    · rw [claimed_later, claimed, List.append_assoc, List.map_append]

include unique in
theorem admitSequence_enters : Enters config clock store.turn [] store
      (store.admitSequence config faults clock principal members).1 := by
  unfold admitSequence
  split
  · exact (Follows.refl _).entering
  · dsimp only
    have kept : ReachesDrawing config clock store.turn [] store.persisted
        (store.atomic (faults 0) fun persisted ↦
          admitMembers config persisted clock store.turn principal (config.uuid store.turn 0)
            members.zipIdx).1.persisted := by
      cases @atomic_persisted _ store (faults 0) (fun persisted ↦
          admitMembers config persisted clock store.turn principal (config.uuid store.turn 0)
            members.zipIdx) with
      | inl same =>
        rw [same]
        exact (Reaches.refl _).drawing
      | inr committed =>
        obtain ⟨owned, ran⟩ := committed
        exact (admitMembers_reaches unique ran).1.drawing
    unfold andThen
    split
    next owned returned =>
      obtain ⟨_, draws, distinct, _, claimed⟩ := admitMembers_reaches unique (atomic_eq_ok returned)
      refine ⟨kept, draws, distinct, ?_⟩
      rw [List.map_append, atomic_claims, List.map_map]
      rw [map_nil, List.nil_append] at claimed
      have same : Claim.owner ∘ Prod.snd = fun entry : ℕ × Claim ↦ entry.2.owner := rfl
      rw [same, claimed]
    all_goals
      refine ⟨kept, [], nodup_nil, ?_⟩
      rw [atomic_claims]
      simp

theorem retract_follows : Follows config clock turn [] store (store.retract faults owner).1 := by
  unfold retract
  split
  · exact Follows.refl _
  · apply atomic_follows
    intro after value ran
    cases ran
    exact reaches_release _ _ _ _

theorem maintain_follows {background : Bool} :
    Follows config clock turn [] store (store.maintain faults clock background).1 := by
  have swept : Follows config clock turn [] store
      (store.atomic (faults 0) fun persisted ↦ do
        let now ← instant clock 0
        let persisted ← persisted.sweep now
        pure (persisted, ())).1 := by
    apply atomic_follows
    intro after value ran
    rw [bind_eq_ok] at ran
    obtain ⟨now, read, ran⟩ := ran
    rw [bind_eq_ok] at ran
    obtain ⟨swept, sweeping, done⟩ := ran
    cases done
    rw [instant_eq_ok read] at sweeping
    exact reaches_sweep sweeping
  unfold maintain
  dsimp only
  split
  · exact swept
  · exact swept.andQuiet (Follows.handle rfl (List.Sublist.refl _))

theorem readReceipt_follows :
    Follows config clock turn [] store (store.readReceipt faults clock principal id).1 := by
  unfold readReceipt
  split
  · exact Follows.refl _
  · apply atomic_follows
    intro after value ran
    rw [bind_eq_ok] at ran
    obtain ⟨now, read, ran⟩ := ran
    rw [bind_eq_ok] at ran
    obtain ⟨⟨expired, remaining⟩, expiring, done⟩ := ran
    cases done
    rw [instant_eq_ok read] at expiring
    exact reaches_expireKey expiring

theorem replaceAuthorizationPolicy_follows :
    Follows config clock turn [] store (store.replaceAuthorizationPolicy config faults).1 := by
  unfold replaceAuthorizationPolicy
  split
  · exact Follows.refl _
  · split
    · exact Follows.refl _
    · have replaced : Follows config clock turn [] store
          (store.atomic (faults 0) fun persisted ↦ .ok ({ persisted with
            authorizationPolicy :=
              emptyTransactionAuthorization (config.uuid store.turn 0) }, ())).1 := by
        apply atomic_follows
        intro after value ran
        cases ran
        exact Reaches.single fun _ _ ↦ Transition.policy _ 0
      apply andThen_induction replaced
      intro value returned
      exact replaced.andQuiet (Follows.handle rfl (List.Sublist.refl _))

theorem reopen_follows : Follows config clock turn [] store (store.reopen fault clock) := by
  have opened (closed : TransactionStore) : Follows config clock turn [] closed
      (closed.atomic fault fun persisted ↦ do
        let now ← instant clock 0
        let retracted : Persisted := { persisted with
          receipts := persisted.receipts.filter fun row ↦ row.owner == none
          creatorFacts := [] }
        let swept ← retracted.sweep now
        pure (swept, ())).1 := by
    apply atomic_follows
    intro after value ran
    rw [bind_eq_ok] at ran
    obtain ⟨now, read, ran⟩ := ran
    rw [bind_eq_ok] at ran
    obtain ⟨swept, sweeping, done⟩ := ran
    cases done
    rw [instant_eq_ok read] at sweeping
    have retracted : Reaches config clock turn [] closed.persisted { closed.persisted with
        receipts := closed.persisted.receipts.filter fun row ↦ row.owner == none
        creatorFacts := [] } := Reaches.single fun _ _ ↦ Transition.retract
    exact retracted.trans (reaches_sweep sweeping)
  unfold reopen
  dsimp only
  have closed : Follows config clock turn [] store
      { store with claims := [], sequences := [], activeSequences := [], mutationPause := none
                   authorization := store.persisted.authorizationPolicy, stopped := false } :=
    Follows.handle rfl (List.nil_sublist _)
  split
  · exact closed.andQuiet (opened _)
  · exact (closed.andQuiet (opened _)).andQuiet (Follows.handle rfl (List.Sublist.refl _))

variable {request : TransactionCall}

include unique in
theorem perform_enters (running : store.stopped = false) :
    Enters config clock store.turn (store.executions config faults clock request) store
      (store.perform config faults clock request) := by
  cases request with
  | admitRequest principal key batch controls => exact admit_enters unique
  | execute owner evaluators =>
    unfold executions
    rw [running]
    exact (executeClaim_follows rfl).entering
  | retract owner => exact retract_follows.entering
  | admitSequence principal members => exact admitSequence_enters unique
  | nextSequence id evaluators => exact nextSequence_enters unique running
  | cancelSequence id => exact cancelSequence_follows.entering
  | maintain background => exact maintain_follows.entering
  | readReceipt principal id => exact readReceipt_follows.entering
  | replaceAuthorizationPolicy => exact replaceAuthorizationPolicy_follows.entering
  | pauseMutationAdmission =>
    dsimp only [perform]
    split
    · exact Follows.entering (Follows.handle rfl (List.Sublist.refl _))
    · exact (Follows.refl _).entering
  | resumeMutationAdmission token =>
    dsimp only [perform]
    split
    · exact Follows.entering (Follows.handle rfl (List.Sublist.refl _))
    · exact (Follows.refl _).entering
  | close => exact Follows.entering (Follows.handle rfl (List.Sublist.refl _))
  | reopen => exact reopen_follows.entering

theorem executions_of_stopped
    (stopped : store.stopped = true) : store.executions config faults clock request = [] := by
  cases request <;> simp [executions, stopped]

theorem call_enters (unique : NamesUnique store.persisted.receipts) (faults : ℕ → Fault)
    (request : TransactionCall) :
    Enters config clock store.turn (store.executions config faults clock request) store
      (store.call config faults clock request) := by
  unfold call
  extract_lets entered
  have enters : Enters config clock store.turn (store.executions config faults clock request) store
      entered := by
    cases running : store.stopped with
    | false =>
      cases request <;> simp only [entered, running, Bool.false_eq_true, if_false] <;>
        exact perform_enters unique running
    | true =>
      rw [executions_of_stopped running]
      cases request with
      | reopen => exact reopen_follows.entering
      | _ =>
        simp only [entered, running, if_true]
        exact (Follows.refl _).entering
  exact enters.andQuiet (Follows.handle rfl (List.Sublist.refl _))

end Entries

end TransactionStore

end Bdp.Transaction
