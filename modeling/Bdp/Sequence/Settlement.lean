import Bdp.Recovery.AtMostOnce
import Bdp.Sequence.Lifecycle

/-!
# Settlement of sequence attempts

What holds after every run of the owner: an attempt is settled once when it leaves the set, its
members were run in the order of their indices, a cleanup that returned left no claim, and an
attempt that is still in the set has a callback to come. The laws are proved for the operations of
the owner one by one, with one attempt exempt whose turn is being taken.
-/

namespace Bdp.Sequence

open Recovery

variable {admission : Admission}
variable {fault : Fault}

section Claims

def Unclaimed (rows : List KeyRow) (admission : Admission) : Prop :=
  ∀ row ∈ rows, claimedBy row admission.principal admission.attemptId = false

variable {config : RecoveryConfiguration} {store : RecoveryStore} {rows : List KeyRow}
  {other : Admission}

section

variable (h : Unclaimed rows other)
include h

theorem Unclaimed.filter (kept : KeyRow → Bool) :
    Unclaimed (rows.filter kept) other := fun row hrow ↦ h row (List.mem_of_mem_filter hrow)

variable {attemptId : String}

theorem Unclaimed.insertClaim (hne : attemptId ≠ other.attemptId) (principal key : String) :
    Unclaimed (insertClaim rows principal key attemptId) other := by
  intro row hrow
  obtain hrow | hrow := List.mem_append.mp hrow
  · exact h row hrow
  · rw [List.mem_singleton.mp hrow]
    simp [claimedBy, KeyRow.claim, hne]

theorem Unclaimed.claimUnknown
    (hne : attemptId ≠ other.attemptId) (principal : String) (keys : List String) :
    Unclaimed (RecoveryStore.claimUnknown rows principal attemptId keys) other := by
  unfold RecoveryStore.claimUnknown
  have hfold (claimed : List KeyRow) (hclaimed : Unclaimed claimed other) :
      Unclaimed (keys.foldl (fun claimed key ↦
        if keyState rows principal key = .unknown then
          Recovery.insertClaim claimed principal key attemptId
        else claimed) claimed) other := by
    induction keys generalizing claimed with
    | nil => exact hclaimed
    | cons key keys ih =>
      rw [List.foldl_cons]
      apply ih
      split
      · exact hclaimed.insertClaim hne principal key
      · exact hclaimed
  exact hfold rows h

theorem Unclaimed.retainClaim (principal key attemptId : String) (outcome : RetainedKey) :
    Unclaimed (retainClaim rows principal key attemptId outcome) other := by
  intro row hrow
  obtain ⟨old, hold, rfl⟩ := List.mem_map.mp hrow
  split
  · simp [claimedBy, KeyRow.retain]
  · exact h old hold

theorem Unclaimed.expireRows (now : ℤ) : Unclaimed (expireRows rows now) other := by
  intro row hrow
  obtain ⟨old, hold, rfl⟩ := List.mem_map.mp hrow
  have hclaimed := h old (List.mem_of_mem_filter hold)
  unfold KeyRow.tombstone
  split
  · split
    · simp [claimedBy]
    · exact hclaimed
  · exact hclaimed

end

theorem unclaimed_transaction {α : Type} (store : RecoveryStore) (fault : Fault)
    {callback : Persisted → Except Thrown (Persisted × α)}
    (h : Unclaimed store.persisted.rows other)
    (hcallback : ∀ after result, callback store.persisted = .ok (after, result) →
      Unclaimed after.rows other) :
    Unclaimed (store.transaction fault callback).1.persisted.rows other := by
  have hpersisted : (store.transaction fault callback).1.persisted = store.persisted ∨ _ :=
    RecoveryStore.transaction_persisted fault callback
  obtain hsame | ⟨after, result, hran, hafter, -⟩ := hpersisted
  · rw [hsame]
    exact h
  · rw [hafter]
    exact hcallback after result hran

theorem closed_transaction {α : Type} (store : RecoveryStore) (fault : Fault)
    (callback : Persisted → Except Thrown (Persisted × α)) :
    (store.transaction fault callback).1.closed = store.closed := by
  unfold RecoveryStore.transaction
  split
  · rfl
  · split <;> rfl

theorem unclaimed_memberTransaction {key : String}
    {evaluate : MemberEvaluation} {persisted after : Persisted} {completion : MemberCompletion}
    (h : Unclaimed persisted.rows other) (hne : admission.attemptId ≠ other.attemptId)
    (hran : RecoveryStore.memberTransaction config admission key evaluate persisted =
      .ok (after, completion)) : Unclaimed after.rows other := by
  unfold RecoveryStore.memberTransaction at hran
  cases howned : RecoveryStore.ownedRows persisted.rows admission key with
  | error state =>
    rw [howned] at hran
    obtain ⟨rfl, -⟩ := Prod.mk.inj (Except.ok.inj hran)
    exact h
  | ok owned =>
    rw [howned] at hran
    have hrows : Unclaimed owned other := by
      unfold RecoveryStore.ownedRows at howned
      split at howned
      · rw [← Except.ok.inj howned]
        exact h.insertClaim hne admission.principal key
      · split at howned
        · rw [← Except.ok.inj howned]
          exact h
        · cases howned
      · cases howned
    obtain ⟨⟨tables, decision⟩, -, hran⟩ := Except.bind_eq_ok.mp hran
    cases decision with
    | release =>
      obtain ⟨rfl, -⟩ := Prod.mk.inj (Except.ok.inj hran)
      exact hrows.filter _
    | retain outcome =>
      obtain ⟨-, -, hran⟩ := Except.bind_eq_ok.mp hran
      obtain ⟨-, -, hran⟩ := Except.bind_eq_ok.mp hran
      obtain ⟨rfl, -⟩ := Prod.mk.inj (Except.ok.inj hran)
      exact hrows.retainClaim _ _ _ _

theorem unclaimed_call (h : Unclaimed store.persisted.rows other) (fault : Fault) (call : StoreCall)
    (hmember : ∀ admission key evaluate, call = .executeMember admission key evaluate →
      admission.attemptId ≠ other.attemptId)
    (hfresh : config.platform.randomUUID store.attempts ≠ other.attemptId) :
    Unclaimed (store.call config fault call).persisted.rows other := by
  cases call with
  | admitMembers principal keys validate =>
    simp only [RecoveryStore.call, RecoveryStore.admitMembers]
    split
    · exact h
    · have hdrawn : Unclaimed (({ store with attempts := store.attempts + 1 } :
          RecoveryStore).transaction fault (RecoveryStore.admitTransaction
            (config.platform.randomUUID store.attempts) principal keys validate)).1.persisted.rows
          other := by
        apply unclaimed_transaction { store with attempts := store.attempts + 1 } fault h
        intro after result hran
        simp only [RecoveryStore.admitTransaction] at hran
        split at hran
        · cases hran
        · obtain ⟨rfl, -⟩ := Prod.mk.inj (Except.ok.inj hran)
          exact h.claimUnknown hfresh principal keys
      split <;> exact hdrawn
  | executeMember admission key evaluate =>
    simp only [RecoveryStore.call, RecoveryStore.executeMember]
    split
    · exact h
    · apply unclaimed_transaction store fault h
      intro after result hran
      exact unclaimed_memberTransaction h (hmember admission key evaluate rfl) hran
  | releaseOwnedClaim admission key =>
    simp only [RecoveryStore.call, RecoveryStore.releaseOwnedClaim]
    split
    · exact h
    · apply unclaimed_transaction store fault h
      intro after result hran
      obtain ⟨rfl, -⟩ := Prod.mk.inj (Except.ok.inj hran)
      exact h.filter _
  | abandonAttempt admission =>
    simp only [RecoveryStore.call, RecoveryStore.abandonAttempt]
    split
    · exact h
    · apply unclaimed_transaction store fault h
      intro after result hran
      obtain ⟨rfl, -⟩ := Prod.mk.inj (Except.ok.inj hran)
      exact h.filter _
  | expire now =>
    simp only [RecoveryStore.call, RecoveryStore.expire]
    split
    · exact h
    · apply unclaimed_transaction store fault h
      intro after result hran
      obtain ⟨rfl, -⟩ := Prod.mk.inj (Except.ok.inj hran)
      exact h.expireRows now
  | close => exact h
  | reopen =>
    simp only [RecoveryStore.call, RecoveryStore.reopen]
    cases fault with
    | none => exact h.filter _
    | statement => exact h
    | commit durable =>
      cases durable
      · exact h
      · exact h.filter _

theorem unclaimed_of_abandonAttempt {count : ℕ}
    (h : (store.abandonAttempt fault admission).2 = .ok count) :
    Unclaimed (store.abandonAttempt fault admission).1.persisted.rows admission := by
  unfold RecoveryStore.abandonAttempt at h ⊢
  split at h
  · cases h
  · unfold RecoveryStore.transaction at h ⊢
    split at h
    · cases h
    · cases fault with
      | none =>
        intro row hrow
        have hkept := (List.mem_filter.mp hrow).2
        simpa using hkept
      | statement => cases h
      | commit durable => cases h

theorem closed_call (fault : Fault) (call : StoreCall) (hclose : call ≠ .close)
    (hreopen : call ≠ .reopen) : (store.call config fault call).closed = store.closed := by
  cases call with
  | admitMembers principal keys validate =>
    simp only [RecoveryStore.call, RecoveryStore.admitMembers]
    split
    · rfl
    · have hclosed := closed_transaction { store with attempts := store.attempts + 1 } fault
        (RecoveryStore.admitTransaction (config.platform.randomUUID store.attempts) principal keys
          validate)
      split <;> exact hclosed
  | executeMember admission key evaluate =>
    simp only [RecoveryStore.call, RecoveryStore.executeMember]
    split
    · rfl
    · exact closed_transaction store fault _
  | releaseOwnedClaim admission key =>
    simp only [RecoveryStore.call, RecoveryStore.releaseOwnedClaim]
    split
    · rfl
    · exact closed_transaction store fault _
  | abandonAttempt admission =>
    simp only [RecoveryStore.call, RecoveryStore.abandonAttempt]
    split
    · rfl
    · exact closed_transaction store fault _
  | expire now =>
    simp only [RecoveryStore.call, RecoveryStore.expire]
    split
    · rfl
    · exact closed_transaction store fault _
  | close => exact absurd rfl hclose
  | reopen => exact absurd rfl hreopen

end Claims

variable {later : Option ℕ}

section Laws

/-- Something will still run for the attempt: its turn, or the failure of a deferred one. -/
def Pending (state : Lifecycle) (id : ℕ) (attempt : Attempt) : Prop :=
  attempt.token = .runnable ∨ .fail id ∈ state.deferred

/-- The members of an attempt were run from the first on, each of them once. -/
structure InOrder (attempt : Attempt) : Prop where
  ran : attempt.ran = List.range attempt.ran.length
  within : attempt.ran.length ≤ attempt.operations

/-- An attempt in the set is not settled. -/
structure Unsettled (state : Lifecycle) (id : ℕ) (attempt : Attempt) : Prop where
  listed : id ∈ state.attempts
  settlements : attempt.settlements = []
  cleanup : attempt.cleanup = none

/-- An attempt outside of the set is settled once, and has no turn. -/
structure Settled (state : Lifecycle) (id : ℕ) (attempt : Attempt) : Prop where
  unlisted : id ∉ state.attempts
  once : attempt.settlements.length = 1
  token : attempt.token = .none

/-- The next member of an attempt has not been run. -/
structure Ready (attempt : Attempt) : Prop where
  next : attempt.ran.length = attempt.next
  remains : attempt.next < attempt.operations

/-- The law of one attempt; the exempt one is between two of its turns. -/
structure AttemptLaw (state : Lifecycle) (exempt : Option ℕ) (id : ℕ) (attempt : Attempt) :
    Prop where
  bound : id < state.registered
  order : InOrder attempt
  unsettled : attempt.done = false → Unsettled state id attempt
  settled : attempt.done = true → Settled state id attempt
  ready : attempt.done = false → exempt ≠ some id → Ready attempt ∧ Pending state id attempt
  released : ∀ count, attempt.cleanup = some (.returned count) →
    Unclaimed state.store.persisted.rows attempt.admission

structure Laws (config : RecoveryConfiguration) (state : Lifecycle) (exempt : Option ℕ) : Prop where
  attempt : ∀ id attempt, state.registry id = some attempt → AttemptLaw state exempt id attempt
  listed : ∀ id ∈ state.attempts, ∃ attempt, state.registry id = some attempt ∧ attempt.done = false
  drawn : ∀ id attempt, state.registry id = some attempt → ∃ index < state.store.attempts,
    attempt.admission.attemptId = config.platform.randomUUID index
  distinct : ∀ id other attempt another, state.registry id = some attempt →
    state.registry other = some another →
    attempt.admission.attemptId = another.admission.attemptId → id = other
  closed : state.phase = .closed → state.attempts = []
  storeClosed : state.store.closed = true → state.phase = .closed

variable {config : RecoveryConfiguration} {environment : Environment} {state : Lifecycle}
  {exempt : Option ℕ} {id : ℕ}

/-- A step that changes nothing of the attempts and forgets no callback. -/
structure Kept (state next : Lifecycle) : Prop where
  registry : next.registry = state.registry
  registered : next.registered = state.registered
  attempts : next.attempts = state.attempts
  store : next.store = state.store
  deferred : ∀ id, .fail id ∈ state.deferred → .fail id ∈ next.deferred
  phase : next.phase = .closed ↔ state.phase = .closed

theorem kept_shutdown (environment : Environment) (state : Lifecycle) (f : Option Failure) :
    Kept state (state.shutdown environment f) := by
  unfold Lifecycle.shutdown
  by_cases hclosed : state.phase = .closed
  · simp only [hclosed, if_true]
    exact ⟨rfl, rfl, rfl, rfl, fun _ hmem ↦ hmem, by simp [hclosed]⟩
  · simp only [hclosed, if_false]
    split
    · exact ⟨rfl, rfl, rfl, rfl, fun _ hmem ↦ List.mem_append_left _ hmem, by simp [hclosed]⟩
    · exact ⟨rfl, rfl, rfl, rfl, fun _ hmem ↦ hmem, by simp [hclosed]⟩

theorem Laws.frame {next : Lifecycle} (h : Laws config state exempt) (hkept : Kept state next) :
    Laws config next exempt := by
  obtain ⟨hregistry, hregistered, hattempts, hstore, hdeferred, hphase⟩ := hkept
  constructor
  case attempt =>
    intro id attempt hattempt
    rw [hregistry] at hattempt
    obtain ⟨hbound, horder, hunsettled, hsettled, hready, hreleased⟩ :=
      h.attempt id attempt hattempt
    refine ⟨hregistered ▸ hbound, horder, ?_, ?_, ?_, hstore ▸ hreleased⟩
    · intro hdone
      obtain ⟨hlisted, hnone, hcleanup⟩ := hunsettled hdone
      exact ⟨hattempts ▸ hlisted, hnone, hcleanup⟩
    · intro hdone
      obtain ⟨hunlisted, honce, htoken⟩ := hsettled hdone
      exact ⟨hattempts ▸ hunlisted, honce, htoken⟩
    · intro hdone hexempt
      obtain ⟨hready, hpending⟩ := hready hdone hexempt
      exact ⟨hready, hpending.imp_right (hdeferred id)⟩
  case listed =>
    rw [hattempts, hregistry]
    exact h.listed
  case drawn =>
    rw [hregistry, hstore]
    exact h.drawn
  case distinct =>
    rw [hregistry]
    exact h.distinct
  case closed =>
    rw [hphase, hattempts]
    exact h.closed
  case storeClosed =>
    rw [hphase, hstore]
    exact h.storeClosed

theorem Laws.shutdown (h : Laws config state exempt) (f : Option Failure) :
    Laws config (state.shutdown environment f) exempt := h.frame (kept_shutdown environment state f)

theorem Laws.close_exemption (h : Laws config state (some id))
    (hdone : ∀ attempt, state.registry id = some attempt → attempt.done = true) :
    Laws config state none := by
  refine ⟨fun other attempt hattempt ↦ ?_, h.listed, h.drawn, h.distinct, h.closed, h.storeClosed⟩
  obtain ⟨hbound, horder, hunsettled, hsettled, hready, hreleased⟩ :=
    h.attempt other attempt hattempt
  refine ⟨hbound, horder, hunsettled, hsettled, fun hopen _ ↦ ?_, hreleased⟩
  apply hready hopen
  intro hsame
  obtain rfl := Option.some.inj hsame
  rw [hdone attempt hattempt] at hopen
  cases hopen

variable {store : RecoveryStore}

theorem Laws.withStore (h : Laws config state exempt)
    (hattempts : state.store.attempts ≤ store.attempts)
    (hclosed : store.closed = true → state.store.closed = true)
    (hreleased : ∀ id attempt count, state.registry id = some attempt →
      attempt.cleanup = some (.returned count) → Unclaimed store.persisted.rows attempt.admission) :
    Laws config { state with store } exempt := by
  constructor
  case attempt =>
    intro id attempt hattempt
    obtain ⟨hbound, horder, hunsettled, hsettled, hready, -⟩ := h.attempt id attempt hattempt
    refine ⟨hbound, horder, ?_, ?_, hready, fun count ↦ hreleased id attempt count hattempt⟩
    · exact fun hdone ↦ ⟨(hunsettled hdone).1, (hunsettled hdone).2, (hunsettled hdone).3⟩
    · exact fun hdone ↦ ⟨(hsettled hdone).1, (hsettled hdone).2, (hsettled hdone).3⟩
  case listed => exact h.listed
  case drawn =>
    intro id attempt hattempt
    obtain ⟨index, hindex, hdrawn⟩ := h.drawn id attempt hattempt
    exact ⟨index, hindex.trans_le hattempts, hdrawn⟩
  case distinct => exact h.distinct
  case closed => exact h.closed
  case storeClosed => exact fun hstore ↦ h.storeClosed (hclosed hstore)

theorem Laws.withCall (h : Laws config state exempt) (fault : Fault) (call : StoreCall)
    (hmember : ∀ admission key evaluate, call = .executeMember admission key evaluate →
      ∃ id attempt, state.registry id = some attempt ∧ attempt.done = false ∧
        attempt.admission = admission)
    (hclose : call ≠ .close) (hreopen : call ≠ .reopen) :
    Laws config { state with store := state.store.call config fault call } exempt := by
  apply h.withStore
  · exact (RecoveryStore.admissions_call fault call).1
  · intro hclosed
    rwa [closed_call fault call hclose hreopen] at hclosed
  · intro id attempt count hattempt hcleanup
    apply unclaimed_call ((h.attempt id attempt hattempt).released count hcleanup)
    · rintro admission key evaluate hcall hsame
      obtain ⟨other, another, hother, hdone, rfl⟩ := hmember admission key evaluate hcall
      obtain rfl := h.distinct other id another attempt hother hattempt hsame
      obtain rfl := Option.some.inj (hother.symm.trans hattempt)
      rw [((h.attempt other another hother).unsettled hdone).cleanup] at hcleanup
      cases hcleanup
    · intro hsame
      obtain ⟨index, hindex, hdrawn⟩ := h.drawn id attempt hattempt
      rw [hdrawn] at hsame
      exact absurd (config.platform.randomUUID_injective hsame) (by omega)

theorem registry_setAttempt (changed : Attempt) (other : ℕ) :
    (state.setAttempt id changed).registry other =
      if other = id then some changed else state.registry other :=
  Function.update_apply state.registry id (some changed) other

variable {attempt : Attempt}
variable {changed : Attempt}

theorem admission_setAttempt {another : Attempt} {other : ℕ}
    (hattempt : state.registry id = some attempt)
    (hadmission : changed.admission = attempt.admission)
    (hanother : (state.setAttempt id changed).registry other = some another) :
    ∃ old, state.registry other = some old ∧ old.admission = another.admission := by
  rw [registry_setAttempt] at hanother
  split at hanother
  · next hsame =>
    obtain rfl := Option.some.inj hanother
    exact ⟨attempt, hsame ▸ hattempt, hadmission.symm⟩
  · exact ⟨another, hanother, rfl⟩

section

variable (h : Laws config state exempt)
include h

theorem Laws.distinct_setAttempt (hattempt : state.registry id = some attempt)
    (hadmission : changed.admission = attempt.admission) (first second : ℕ) (left right : Attempt)
    (hleft : (state.setAttempt id changed).registry first = some left)
    (hright : (state.setAttempt id changed).registry second = some right)
    (hsame : left.admission.attemptId = right.admission.attemptId) : first = second := by
  obtain ⟨oldLeft, holdLeft, hsameLeft⟩ := admission_setAttempt hattempt hadmission hleft
  obtain ⟨oldRight, holdRight, hsameRight⟩ := admission_setAttempt hattempt hadmission hright
  apply h.distinct first second oldLeft oldRight holdLeft holdRight
  rw [hsameLeft, hsameRight, hsame]

theorem Laws.setAttempt (changed : Attempt)
    (hattempt : state.registry id = some attempt) (hdone : changed.done = attempt.done)
    (hadmission : changed.admission = attempt.admission)
    (hsettlements : changed.settlements = attempt.settlements)
    (hcleanup : changed.cleanup = attempt.cleanup)
    (htoken : attempt.done = true → changed.token = .none) (horder : InOrder changed)
    (hlater : ∀ other, other ≠ id → later ≠ some other → exempt ≠ some other)
    (hready : attempt.done = false → later ≠ some id → Ready changed ∧ Pending state id changed) :
    Laws config (state.setAttempt id changed) later := by
  have hlaw := h.attempt id attempt hattempt
  constructor
  case attempt =>
    intro other another hanother
    rw [registry_setAttempt] at hanother
    split at hanother
    · next hsame =>
      obtain rfl := Option.some.inj hanother
      subst hsame
      refine ⟨hlaw.bound, horder, ?_, ?_, ?_, ?_⟩
      · intro hopen
        obtain ⟨hlisted, hnone, hclean⟩ := hlaw.unsettled (hdone ▸ hopen)
        exact ⟨hlisted, hsettlements.trans hnone, hcleanup.trans hclean⟩
      · intro hended
        obtain ⟨hunlisted, honce, -⟩ := hlaw.settled (hdone ▸ hended)
        exact ⟨hunlisted, hsettlements ▸ honce, htoken (hdone ▸ hended)⟩
      · exact fun hopen hexempt ↦ hready (hdone ▸ hopen) hexempt
      · intro count hcount
        rw [hadmission]
        exact hlaw.released count (hcleanup ▸ hcount)
    · next hne =>
      obtain ⟨hbound, horder, hunsettled, hsettled, hready, hreleased⟩ :=
        h.attempt other another hanother
      refine ⟨hbound, horder, ?_, ?_, ?_, hreleased⟩
      · exact fun hopen ↦ ⟨(hunsettled hopen).1, (hunsettled hopen).2, (hunsettled hopen).3⟩
      · exact fun hended ↦ ⟨(hsettled hended).1, (hsettled hended).2, (hsettled hended).3⟩
      · exact fun hopen hexempt ↦ hready hopen (hlater other hne hexempt)
  case listed =>
    intro other hother
    obtain ⟨another, hanother, hopen⟩ := h.listed other hother
    rw [registry_setAttempt]
    split
    · next hsame =>
      subst hsame
      obtain rfl := Option.some.inj (hattempt.symm.trans hanother)
      exact ⟨changed, rfl, hdone.trans hopen⟩
    · exact ⟨another, hanother, hopen⟩
  case drawn =>
    intro other another hanother
    obtain ⟨old, hold, hsame⟩ := admission_setAttempt hattempt hadmission hanother
    exact hsame ▸ h.drawn other old hold
  case distinct => exact h.distinct_setAttempt hattempt hadmission
  case closed => exact h.closed
  case storeClosed => exact h.storeClosed

theorem Laws.remove {settled : Attempt} (isFenced : Bool)
    (hattempt : state.registry id = some attempt) (hdone : settled.done = true)
    (hadmission : settled.admission = attempt.admission) (honce : settled.settlements.length = 1)
    (htoken : settled.token = .none) (horder : InOrder settled)
    (hreleased : ∀ count, settled.cleanup = some (.returned count) →
      Unclaimed state.store.persisted.rows settled.admission) :
    Laws config { state.setAttempt id settled with
      storeFenced := isFenced
      attempts := state.attempts.filter fun other ↦ other ≠ id } exempt := by
  have hmem (other : ℕ) (hne : other ≠ id) :
      other ∈ state.attempts.filter (fun other ↦ other ≠ id) ↔ other ∈ state.attempts := by
    simp [hne]
  constructor
  case attempt =>
    intro other another hanother
    replace hanother := (registry_setAttempt _ other).symm.trans hanother
    split at hanother
    · next hsame =>
      obtain rfl := Option.some.inj hanother
      subst hsame
      refine ⟨(h.attempt other attempt hattempt).bound, horder, ?_, fun _ ↦ ?_, ?_, hreleased⟩
      · intro hopen
        rw [hdone] at hopen
        cases hopen
      · exact ⟨by simp, honce, htoken⟩
      · intro hopen
        rw [hdone] at hopen
        cases hopen
    · next hne =>
      obtain ⟨hbound, horder, hunsettled, hsettled, hready, hreleased⟩ :=
        h.attempt other another hanother
      refine ⟨hbound, horder, ?_, ?_, hready, hreleased⟩
      · intro hopen
        obtain ⟨hlisted, hnone, hcleanup⟩ := hunsettled hopen
        exact ⟨(hmem other hne).mpr hlisted, hnone, hcleanup⟩
      · intro hended
        obtain ⟨hunlisted, honce, htoken⟩ := hsettled hended
        exact ⟨fun hlisted ↦ hunlisted ((hmem other hne).mp hlisted), honce, htoken⟩
  case listed =>
    intro other hother
    have hne : other ≠ id := by simpa using (List.mem_filter.mp hother).2
    obtain ⟨another, hanother, hopen⟩ := h.listed other (List.mem_of_mem_filter hother)
    refine ⟨another, ?_, hopen⟩
    exact (registry_setAttempt _ other).trans ((if_neg hne).trans hanother)
  case drawn =>
    intro other another hanother
    obtain ⟨old, hold, hsame⟩ := admission_setAttempt hattempt hadmission hanother
    exact hsame ▸ h.drawn other old hold
  case distinct => exact h.distinct_setAttempt hattempt hadmission
  case closed =>
    intro hphase
    have hempty := h.closed hphase
    simp [hempty]
  case storeClosed => exact h.storeClosed

end

theorem ending_returned {fault : Option Failure} {cancelFailed : Bool}
    {abandoned : Except Thrown ℕ} {count : ℕ}
    (h : (Lifecycle.ending fault cancelFailed abandoned).cleanup = .returned count) :
    abandoned = .ok count := by
  unfold Lifecycle.ending at h
  cases abandoned with
  | error error => cases h
  | ok returned =>
    dsimp only at h
    by_cases hclaims : (if cancelFailed = true then some (append fault .cancel) else fault) = none ∧
        returned ≠ 0
    · rw [if_pos hclaims] at h
      rw [AttemptCleanupEvidence.returned.inj h]
    · rw [if_neg hclaims] at h
      rw [AttemptCleanupEvidence.returned.inj h]

section

variable (h : Laws config state exempt)
include h

theorem Laws.settle (environment : Environment) (fault : Option Failure)
    (hattempt : state.registry id = some attempt) (hopen : attempt.done = false) :
    Laws config (state.settle environment id attempt fault).1 exempt ∧
      ∃ settled, (state.settle environment id attempt fault).1.registry id = some settled ∧
        settled.done = true := by
  have hlaw := h.attempt id attempt hattempt
  have hcall := h.withCall (environment.abandon id) (.abandonAttempt attempt.admission)
    (fun _ _ _ hcall ↦ nomatch hcall) (fun hcall ↦ nomatch hcall) (fun hcall ↦ nomatch hcall)
  constructor
  · apply hcall.remove _ hattempt
    · rfl
    · rfl
    · rw [(hlaw.unsettled hopen).settlements]
      rfl
    · rfl
    · exact ⟨hlaw.order.ran, hlaw.order.within⟩
    · intro count hcount
      exact unclaimed_of_abandonAttempt (ending_returned (Option.some.inj hcount))
  · exact ⟨_, Function.update_self id _ state.registry, rfl⟩

theorem Laws.finish (environment : Environment) (id : ℕ) (fault : Option Failure) :
    Laws config (state.finish environment id fault).1 exempt ∧
      ∀ attempt, (state.finish environment id fault).1.registry id = some attempt →
        attempt.done = true := by
  unfold Lifecycle.finish
  cases hattempt : state.registry id with
  | none =>
    refine ⟨h, fun attempt hother ↦ ?_⟩
    rw [hattempt] at hother
    cases hother
  | some attempt =>
    cases hdone : attempt.done with
    | true =>
      simp only [hdone, if_true]
      refine ⟨h, fun other hother ↦ ?_⟩
      rw [← Option.some.inj (hattempt.symm.trans hother), hdone]
    | false =>
      obtain ⟨hsettle, settled, hsettled, hended⟩ := h.settle environment fault hattempt hdone
      simp only [hdone, Bool.false_eq_true, if_false]
      split
      · refine ⟨hsettle.shutdown _, fun other hother ↦ ?_⟩
        rw [(kept_shutdown environment _ _).registry] at hother
        rw [← Option.some.inj (hsettled.symm.trans hother), hended]
      · refine ⟨hsettle, fun other hother ↦ ?_⟩
        rw [← Option.some.inj (hsettled.symm.trans hother), hended]

theorem Laws.finishAndStop (environment : Environment) (id : ℕ) (fault : Failure) :
    Laws config (state.finishAndStop environment id fault) exempt ∧
      ∀ attempt, (state.finishAndStop environment id fault).registry id = some attempt →
        attempt.done = true := by
  obtain ⟨hfinish, hdone⟩ := h.finish environment id (some fault)
  unfold Lifecycle.finishAndStop
  simp only
  split
  · exact ⟨hfinish, hdone⟩
  · refine ⟨hfinish.shutdown _, fun attempt hattempt ↦ hdone attempt ?_⟩
    rwa [(kept_shutdown environment _ _).registry] at hattempt

end

theorem Laws.scheduleMember (h : Laws config state (some id))
    (hattempt : state.registry id = some attempt) (hopen : attempt.done = false)
    (hready : Ready attempt) : Laws config (state.scheduleMember environment id) none := by
  unfold Lifecycle.scheduleMember
  cases environment.scheduling with
  | runnable =>
    rw [hattempt]
    dsimp only
    have hlaw := h.attempt id attempt hattempt
    apply h.setAttempt { attempt with token := .runnable } hattempt rfl rfl rfl rfl
    · intro hdone
      rw [hopen] at hdone
      cases hdone
    · exact ⟨hlaw.order.ran, hlaw.order.within⟩
    · intro other hne _ hsame
      exact hne (Option.some.inj hsame).symm
    · exact fun _ _ ↦ ⟨⟨hready.next, hready.remains⟩, .inl rfl⟩
  | fails secondary =>
    obtain ⟨hstopped, hdone⟩ := h.finishAndStop environment id _
    exact hstopped.close_exemption hdone

theorem Laws.memberRan (h : Laws config state (some id))
    (hattempt : state.registry id = some attempt) (hopen : attempt.done = false)
    (hnext : attempt.ran.length = attempt.next + 1) :
    Laws config (state.memberRan environment id attempt) none := by
  have hlaw := h.attempt id attempt hattempt
  have hadvanced : Laws config
      (state.setAttempt id { attempt with next := attempt.next + 1 }) (some id) := by
    apply h.setAttempt { attempt with next := attempt.next + 1 } hattempt rfl rfl rfl rfl
    · exact fun hdone ↦ (hlaw.settled hdone).token
    · exact ⟨hlaw.order.ran, hlaw.order.within⟩
    · exact fun _ _ hother ↦ hother
    · exact fun _ hsame ↦ absurd rfl hsame
  unfold Lifecycle.memberRan
  split
  · obtain ⟨hfinish, hdone⟩ := h.finish environment id (some (failure .project))
    exact hfinish.close_exemption hdone
  · simp only
    split
    · split
      · obtain ⟨hfinish, hdone⟩ := hadvanced.finish environment id
          (some (failure .project))
        exact hfinish.close_exemption hdone
      · obtain ⟨hfinish, hdone⟩ := hadvanced.finish environment id none
        exact hfinish.close_exemption hdone
    · next hmore =>
      apply hadvanced.scheduleMember (Function.update_self id _ state.registry)
      · exact hopen
      · have hwithin := hlaw.order.within
        rw [hnext] at hwithin
        exact ⟨hnext, lt_of_le_of_ne hwithin hmore⟩

theorem runMember_store (config : RecoveryConfiguration) (store : RecoveryStore)
    (attempt : Attempt) (script : MemberScript) :
    (Lifecycle.runMember config store attempt script).1 = store ∨ ∃ fault call,
      (Lifecycle.runMember config store attempt script).1 = store.call config fault call ∧
      ((∃ key, call = .releaseOwnedClaim attempt.admission key) ∨
        ∃ key evaluate, call = .executeMember attempt.admission key evaluate) := by
  cases script with
  | throws error => exact .inl rfl
  | releases fault =>
    unfold Lifecycle.runMember
    cases attempt.admission.keys[attempt.next]? with
    | none => exact .inl rfl
    | some key =>
      exact .inr ⟨fault, .releaseOwnedClaim attempt.admission key, rfl, .inl ⟨key, rfl⟩⟩
  | executes evaluate fault after =>
    unfold Lifecycle.runMember
    cases attempt.admission.keys[attempt.next]? with
    | none => exact .inl rfl
    | some key =>
      refine .inr ⟨fault, .executeMember attempt.admission key evaluate, ?_, .inr ⟨key, _, rfl⟩⟩
      dsimp only
      split <;> rfl

theorem Laws.runMember (h : Laws config state exempt)
    (hattempt : state.registry id = some attempt) (hopen : attempt.done = false)
    (script : MemberScript) :
    Laws config { state with
      store := (Lifecycle.runMember config state.store attempt script).1 } exempt := by
  obtain hsame | ⟨fault, call, hstore, hcall⟩ := runMember_store config state.store attempt script
  · rw [hsame]
    exact h
  · rw [hstore]
    apply h.withCall
    · rintro admission key evaluate rfl
      obtain ⟨_, hcall⟩ | ⟨_, _, hcall⟩ := hcall
      · cases hcall
      · cases hcall
        exact ⟨id, attempt, hattempt, hopen, rfl⟩
    · rintro rfl
      obtain ⟨_, hcall⟩ | ⟨_, _, hcall⟩ := hcall <;> cases hcall
    · rintro rfl
      obtain ⟨_, hcall⟩ | ⟨_, _, hcall⟩ := hcall <;> cases hcall

theorem Laws.withFenced (h : Laws config state exempt) (isFenced : Bool) :
    Laws config { state with storeFenced := isFenced } exempt :=
  h.frame ⟨rfl, rfl, rfl, rfl, fun _ hmem ↦ hmem, Iff.rfl⟩

theorem InOrder.run (h : InOrder attempt) (hready : Ready attempt) :
    InOrder { attempt with ran := attempt.ran ++ [attempt.next] } := by
  constructor
  · calc attempt.ran ++ [attempt.next]
        = List.range attempt.ran.length ++ [attempt.ran.length] := by
          rw [← hready.next, ← h.ran]
      _ = List.range (attempt.ran ++ [attempt.next]).length := by
          rw [List.length_append, List.length_singleton, List.range_succ]
  · rw [List.length_append, List.length_singleton, hready.next]
    exact hready.remains

theorem Laws.turn (h : Laws config state (some id))
    (hready : ∀ attempt, state.registry id = some attempt → attempt.done = false → Ready attempt) :
    Laws config (state.turn config environment id) none := by
  unfold Lifecycle.turn
  cases hattempt : state.registry id with
  | none =>
    apply h.close_exemption
    intro attempt hother
    rw [hattempt] at hother
    cases hother
  | some attempt =>
    dsimp only
    by_cases hdone : attempt.done = true
    · rw [if_pos hdone]
      apply h.close_exemption
      intro other hother
      rw [← Option.some.inj (hattempt.symm.trans hother), hdone]
    · rw [if_neg hdone]
      rw [Bool.not_eq_true] at hdone
      by_cases hfenced : state.storeFenced = true
      · rw [if_pos hfenced]
        obtain ⟨hfinish, hended⟩ := h.finish environment id (some state.fenceFault)
        exact hfinish.close_exemption hended
      · rw [if_neg hfenced]
        have hnext := hready attempt hattempt hdone
        have hlaw := h.attempt id attempt hattempt
        have hcalled : Laws config { state.setAttempt id
            { attempt with ran := attempt.ran ++ [attempt.next] } with
            store := (Lifecycle.runMember config state.store attempt environment.member).1 }
            (some id) := by
          apply (h.runMember hattempt hdone environment.member).setAttempt
            { attempt with ran := attempt.ran ++ [attempt.next] } hattempt rfl rfl rfl rfl
          · exact fun hended ↦ (hlaw.settled hended).token
          · exact hlaw.order.run hnext
          · exact fun _ _ hother ↦ hother
          · exact fun _ hsame ↦ absurd rfl hsame
        cases hresult : (Lifecycle.runMember config state.store attempt environment.member).2 with
        | ok value =>
          apply hcalled.memberRan (Function.update_self id _ state.registry) hdone
          rw [List.length_append, List.length_singleton, hnext.next]
        | error error =>
          obtain ⟨hfinish, hended⟩ := (hcalled.withFenced
            (state.storeFenced || fenced error)).finish environment id (some (failure .member))
          dsimp only
          split
          · exact (hfinish.close_exemption hended).shutdown _
          · exact hfinish.close_exemption hended

section

variable (h : Laws config state exempt)
include h

theorem Laws.armPeriod : Laws config (state.armPeriod environment) exempt := by
  unfold Lifecycle.armPeriod
  split
  · split
    · exact h.frame ⟨rfl, rfl, rfl, rfl, fun _ hmem ↦ hmem, Iff.rfl⟩
    · exact h.shutdown _
  · exact h

theorem Laws.expire (environment : Environment) :
    Laws config { state with store := (state.expire environment).1 } exempt := by
  unfold Lifecycle.expire
  cases environment.now with
  | none => exact h
  | some now =>
    exact h.withCall environment.expire (.expire now) (fun _ _ _ hcall ↦ nomatch hcall)
      (fun hcall ↦ nomatch hcall) (fun hcall ↦ nomatch hcall)

theorem Laws.maintain : Laws config (state.maintain environment) exempt := by
  unfold Lifecycle.maintain
  split
  · exact h.armPeriod
  · have hexpired := h.expire environment
    dsimp only
    split
    · exact hexpired.armPeriod
    · exact (hexpired.withFenced _).shutdown _

theorem Laws.readFails (isFenced : Bool) :
    Laws config (state.readFails environment isFenced) exempt := by
  unfold Lifecycle.readFails
  split
  · exact (h.withFenced true).shutdown _
  · exact h

end

theorem admitMembers_keys {principal : String}
    {keys : List String} {validate : List KeyState → Option Thrown}
    (h : (store.admitMembers config fault principal keys validate).2 = .ok admission) :
    admission.keys ≠ [] := by
  unfold RecoveryStore.admitMembers at h
  dsimp only at h
  split at h
  · cases h
  · next hchecked =>
    have hkeys : keys ≠ [] := by
      obtain ⟨_, -, hchecked⟩ := Except.bind_eq_ok.mp hchecked
      obtain ⟨_, hnonempty, -⟩ := Except.bind_eq_ok.mp hchecked
      exact (check_eq_ok.mp hnonempty).1
    split at h
    · cases h
    · next admitted hadmitted =>
      obtain rfl := Except.ok.inj h
      unfold RecoveryStore.transaction at hadmitted
      split at hadmitted
      · cases hadmitted
      · split at hadmitted
        · next persisted result _ hran =>
          obtain rfl := Except.ok.inj hadmitted
          simp only [RecoveryStore.admitTransaction] at hran
          split at hran
          · cases hran
          · obtain ⟨-, rfl⟩ := Prod.mk.inj (Except.ok.inj hran)
            exact hkeys
        · cases hadmitted
        · cases hadmitted
        · cases hadmitted

theorem Laws.register (h : Laws config state none) {sequence : Bool}
    (haccepting : state.phase = .accepting) (hkeys : admission.keys ≠ [])
    (hdrawn : ∃ index < state.store.attempts,
      admission.attemptId = config.platform.randomUUID index)
    (hfresh : ∀ id attempt, state.registry id = some attempt →
      attempt.admission.attemptId ≠ admission.attemptId) :
    Laws config (state.register environment sequence admission) none := by
  have hregistry (id : ℕ) (attempt : Attempt) :
      (state.setAttempt state.registered attempt).registry id =
        if id = state.registered then some attempt else state.registry id :=
    Function.update_apply state.registry state.registered (some attempt) id
  have hnew : state.registry state.registered = none := by
    cases hold : state.registry state.registered with
    | none => rfl
    | some attempt => exact absurd (h.attempt _ attempt hold).bound (lt_irrefl _)
  unfold Lifecycle.register
  dsimp only
  apply Laws.scheduleMember _ (Function.update_self state.registered _ state.registry) rfl
  · exact ⟨rfl, List.length_pos_iff.mpr hkeys⟩
  · constructor
    case attempt =>
      intro id attempt hattempt
      replace hattempt := (hregistry id _).symm.trans hattempt
      split at hattempt
      · next hsame =>
        obtain rfl := Option.some.inj hattempt
        subst hsame
        refine ⟨Nat.lt_succ_self _, ⟨rfl, Nat.zero_le _⟩, fun _ ↦ ?_, ?_, ?_, ?_⟩
        · exact ⟨List.mem_append_right _ (List.mem_singleton_self _), rfl, rfl⟩
        · exact fun hdone ↦ nomatch hdone
        · exact fun _ hsame ↦ absurd rfl hsame
        · exact fun _ hcleanup ↦ nomatch hcleanup
      · next hne =>
        obtain ⟨hbound, horder, hunsettled, hsettled, hready, hreleased⟩ :=
          h.attempt id attempt hattempt
        refine ⟨hbound.trans (Nat.lt_succ_self _), horder, ?_, ?_, ?_, hreleased⟩
        · intro hopen
          obtain ⟨hlisted, hnone, hcleanup⟩ := hunsettled hopen
          exact ⟨List.mem_append_left _ hlisted, hnone, hcleanup⟩
        · intro hended
          obtain ⟨hunlisted, honce, htoken⟩ := hsettled hended
          refine ⟨fun hlisted ↦ ?_, honce, htoken⟩
          obtain hlisted | hlisted := List.mem_append.mp hlisted
          · exact hunlisted hlisted
          · exact hne (List.mem_singleton.mp hlisted)
        · exact fun hopen _ ↦ hready hopen (by simp)
    case listed =>
      intro id hid
      obtain hid | hid := List.mem_append.mp hid
      · obtain ⟨attempt, hattempt, hopen⟩ := h.listed id hid
        have hne : id ≠ state.registered := by
          rintro rfl
          rw [hnew] at hattempt
          cases hattempt
        exact ⟨attempt, (hregistry id _).trans ((if_neg hne).trans hattempt), hopen⟩
      · obtain rfl := List.mem_singleton.mp hid
        exact ⟨_, Function.update_self state.registered _ state.registry, rfl⟩
    case drawn =>
      intro id attempt hattempt
      replace hattempt := (hregistry id _).symm.trans hattempt
      split at hattempt
      · rw [← Option.some.inj hattempt]
        exact hdrawn
      · exact h.drawn id attempt hattempt
    case distinct =>
      intro first second left right hleft hright hsame
      replace hleft := (hregistry first _).symm.trans hleft
      replace hright := (hregistry second _).symm.trans hright
      split at hleft
      · next hfirst =>
        split at hright
        · next hsecond => exact hfirst.trans hsecond.symm
        · rw [← Option.some.inj hleft] at hsame
          exact absurd hsame.symm (hfresh second right hright)
      · split at hright
        · rw [← Option.some.inj hright] at hsame
          exact absurd hsame (hfresh first left hleft)
        · exact h.distinct first second left right hleft hright hsame
    case closed =>
      intro hclosed
      exact absurd (haccepting.symm.trans hclosed) (by decide)
    case storeClosed => exact h.storeClosed

theorem Laws.submit (h : Laws config state none) (submission : Submission) :
    Laws config (state.submit config environment submission) none := by
  cases submission with
  | refused => exact h
  | inspected isFenced =>
    unfold Lifecycle.submit
    dsimp only
    split
    · exact h.readFails isFenced
    · exact h
  | admits sequence principal keys fault =>
    unfold Lifecycle.submit
    dsimp only
    split
    · next haccepting =>
      have hcalled := h.withCall fault (.admitMembers principal keys fun _ ↦ none)
        (fun _ _ _ hcall ↦ nomatch hcall) (fun hcall ↦ nomatch hcall) (fun hcall ↦ nomatch hcall)
      have hadmissions := @RecoveryStore.admissions_call config state.store fault
        (.admitMembers principal keys fun _ ↦ none)
      cases hadmitted : (state.store.admitMembers config fault principal keys fun _ ↦ none).2 with
      | ok admission =>
        have hone : state.store.admitted config fault (.admitMembers principal keys fun _ ↦ none) =
            [admission] := by
          simp only [RecoveryStore.admitted, hadmitted]
        obtain ⟨-, -, hnone | ⟨other, hother, hidentity, hless⟩⟩ := hadmissions
        · rw [hone] at hnone
          cases hnone
        · obtain rfl : admission = other := by
            rw [hone] at hother
            exact (List.cons.inj hother).1
          apply hcalled.register haccepting (admitMembers_keys hadmitted)
          · exact ⟨state.store.attempts, hless, hidentity⟩
          · intro id attempt hattempt hsame
            obtain ⟨index, hindex, hdrawn⟩ := h.drawn id attempt hattempt
            rw [hdrawn, hidentity] at hsame
            exact absurd (config.platform.randomUUID_injective hsame) (by omega)
      | error error =>
        dsimp only
        split
        · exact (hcalled.withFenced true).shutdown _
        · exact hcalled
    · exact h

theorem Laws.drain (h : Laws config state exempt) :
    Laws config (state.drain environment) exempt := by
  have hfold (ids : List ℕ) (start : Lifecycle) (hstart : Laws config start exempt) :
      Laws config (ids.foldl (fun state id ↦
        (state.finish environment id (some state.fenceFault)).1) start) exempt := by
    induction ids generalizing start with
    | nil => exact hstart
    | cons id ids ih =>
      rw [List.foldl_cons]
      exact ih _ (hstart.finish environment id _).1
  exact (hfold state.attempts state h).frame
    ⟨rfl, rfl, rfl, rfl, fun _ hmem ↦ hmem, Iff.rfl⟩

theorem Laws.closeIfDrained (h : Laws config state none) :
    Laws config (state.closeIfDrained environment) none := by
  unfold Lifecycle.closeIfDrained
  split
  · next hdrained =>
    constructor
    case attempt =>
      intro id attempt hattempt
      obtain ⟨hbound, horder, hunsettled, hsettled, hready, hreleased⟩ :=
        h.attempt id attempt hattempt
      refine ⟨hbound, horder, ?_, ?_, hready, hreleased⟩
      · exact fun hopen ↦ ⟨(hunsettled hopen).1, (hunsettled hopen).2, (hunsettled hopen).3⟩
      · exact fun hended ↦ ⟨(hsettled hended).1, (hsettled hended).2, (hsettled hended).3⟩
    case listed => exact h.listed
    case drawn => exact h.drawn
    case distinct => exact h.distinct
    case closed => exact fun _ ↦ hdrained.2.1
    case storeClosed => exact fun _ ↦ rfl
  · exact h

end Laws

section Runs

variable {config : RecoveryConfiguration} {store : RecoveryStore} {state next : Lifecycle}

def Stage.exempt : Stage → Option ℕ
  | .acting (.turn id) => some id
  | _ => none

/-- What holds between any two steps. -/
structure Invariant (config : RecoveryConfiguration) (state : Lifecycle) : Prop where
  laws : Laws config state state.stage.exempt
  ready : ∀ id, state.stage.exempt = some id → ∀ attempt, state.registry id = some attempt →
    attempt.done = false → Ready attempt

variable {exempt : Option ℕ}

theorem Laws.withStage (h : Laws config state exempt) (stage : Stage) :
    Laws config { state with stage } exempt :=
  h.frame ⟨rfl, rfl, rfl, rfl, fun _ hmem ↦ hmem, Iff.rfl⟩

theorem Invariant.of_laws (h : Laws config state none) (hstage : state.stage.exempt = none) :
    Invariant config state := by
  constructor
  · rw [hstage]
    exact h
  · intro id hid
    rw [hstage] at hid
    cases hid

theorem Invariant.idle (h : Invariant config state) (hidle : state.stage.exempt = none) :
    Laws config state none := hidle ▸ h.laws

theorem Laws.takeTurn {id : ℕ} {attempt : Attempt}
    (h : Laws config state exempt) (hattempt : state.registry id = some attempt)
    (hlater : ∀ other, other ≠ id → later ≠ some other → exempt ≠ some other)
    (hready : attempt.done = false → later ≠ some id → Ready attempt ∧ .fail id ∈ state.deferred) :
    Laws config (state.takeTurn id attempt) later := by
  have hlaw := h.attempt id attempt hattempt
  apply h.setAttempt { attempt with token := .none } hattempt rfl rfl rfl rfl
  · exact fun _ ↦ rfl
  · exact ⟨hlaw.order.ran, hlaw.order.within⟩
  · exact hlater
  · intro hopen hexempt
    obtain ⟨hnext, hdeferred⟩ := hready hopen hexempt
    exact ⟨⟨hnext.next, hnext.remains⟩, .inr hdeferred⟩

theorem Laws.dequeue (h : Laws config state none) {rest : List Deferred}
    (hqueued : ∀ id, later ≠ some id → .fail id ∈ state.deferred → .fail id ∈ rest) :
    Laws config { state with deferred := rest } later := by
  refine ⟨fun id attempt hattempt ↦ ?_, h.listed, h.drawn, h.distinct, h.closed, h.storeClosed⟩
  obtain ⟨hbound, horder, hunsettled, hsettled, hready, hreleased⟩ := h.attempt id attempt hattempt
  refine ⟨hbound, horder, ?_, ?_, ?_, hreleased⟩
  · exact fun hopen ↦ ⟨(hunsettled hopen).1, (hunsettled hopen).2, (hunsettled hopen).3⟩
  · exact fun hended ↦ ⟨(hsettled hended).1, (hsettled hended).2, (hsettled hended).3⟩
  · intro hopen hexempt
    obtain ⟨hnext, hpending⟩ := hready hopen (by simp)
    exact ⟨hnext, hpending.imp_right (hqueued id hexempt)⟩

theorem Invariant.step (h : Invariant config state) (step : Step config state next) :
    Invariant config next := by
  cases step with
  | submit submission idle =>
    exact .of_laws ((h.idle (by rw [idle]; rfl)).withStage _) rfl
  | read fenced idle =>
    exact .of_laws ((h.idle (by rw [idle]; rfl)).withStage _) rfl
  | close idle =>
    exact .of_laws ((h.idle (by rw [idle]; rfl)).withStage _) rfl
  | @turn id attempt idle held runnable =>
    have hlaws := h.idle (by rw [idle]; rfl)
    constructor
    · apply Laws.withStage
      exact hlaws.takeTurn held (fun _ _ _ ↦ by simp) fun _ hsame ↦ absurd rfl hsame
    · intro other hother another hanother hopen
      obtain rfl : id = other := Option.some.inj hother
      obtain rfl := Option.some.inj ((Function.update_self id _ state.registry).symm.trans hanother)
      obtain ⟨hready, -⟩ := (hlaws.attempt id attempt held).ready hopen (by simp)
      exact ⟨hready.next, hready.remains⟩
  | maintain idle armed =>
    apply Invariant.of_laws _ rfl
    exact (h.idle (by rw [idle]; rfl)).frame ⟨rfl, rfl, rfl, rfl, fun _ hmem ↦ hmem, Iff.rfl⟩
  | @reentrantTurn id attempt busy held runnable =>
    have hdeferred : Laws config { state with deferred := state.deferred ++ [.fail id] }
        state.stage.exempt :=
      h.laws.frame ⟨rfl, rfl, rfl, rfl, fun _ hmem ↦ List.mem_append_left _ hmem, Iff.rfl⟩
    constructor
    · apply hdeferred.takeTurn held (fun _ _ hother ↦ hother)
      intro hopen hexempt
      exact ⟨((h.laws.attempt id attempt held).ready hopen hexempt).1,
        List.mem_append_right _ (List.mem_singleton_self _)⟩
    · intro other hother another hanother hopen
      replace hanother := (Function.update_apply state.registry id _ other).symm.trans hanother
      split at hanother
      · next hsame =>
        obtain rfl := Option.some.inj hanother
        subst hsame
        obtain ⟨hnext, hremains⟩ := h.ready other hother attempt held hopen
        exact ⟨hnext, hremains⟩
      · exact h.ready other hother another hanother hopen
  | reentrantMaintenance busy armed =>
    constructor
    · exact h.laws.frame
        ⟨rfl, rfl, rfl, rfl, fun _ hmem ↦ List.mem_append_left _ hmem, Iff.rfl⟩
    · exact h.ready
  | @act entry environment acting =>
    have hlaws := h.laws
    rw [acting] at hlaws
    apply Invariant.of_laws (Laws.withStage _ _) rfl
    cases entry with
    | submit submission => exact hlaws.submit submission
    | turn id =>
      apply Laws.turn hlaws
      intro attempt hattempt hopen
      exact h.ready id (by rw [acting]; rfl) attempt hattempt hopen
    | maintain => exact hlaws.maintain
    | read fenced =>
      unfold Lifecycle.act
      dsimp only
      split
      · exact hlaws.readFails fenced
      · exact hlaws
    | close => exact hlaws.shutdown none
  | @deferred first rest environment leaving queued =>
    have hlaws := h.idle (by rw [leaving]; rfl)
    apply Invariant.of_laws (Laws.withStage _ _) rfl
    cases first with
    | fail id =>
      have hdequeued : Laws config { state with deferred := rest } (some id) := by
        apply hlaws.dequeue
        intro other hne hmem
        rw [queued] at hmem
        obtain hsame | hmem := List.mem_cons.mp hmem
        · exact absurd (congrArg some (Deferred.fail.inj hsame).symm) hne
        · exact hmem
      obtain ⟨hstopped, hdone⟩ := hdequeued.finishAndStop environment id (failure .schedule)
      exact hstopped.close_exemption hdone
    | failMaintenance =>
      refine (hlaws.dequeue fun other _ hmem ↦ ?_).shutdown _
      rw [queued] at hmem
      exact (List.mem_cons.mp hmem).resolve_left nofun
    | drain =>
      refine (hlaws.dequeue fun other _ hmem ↦ ?_).drain
      rw [queued] at hmem
      exact (List.mem_cons.mp hmem).resolve_left nofun
  | leave environment leaving empty =>
    apply Invariant.of_laws (Laws.withStage _ _) rfl
    exact (h.idle (by rw [leaving]; rfl)).closeIfDrained

theorem Invariant.start (hopened : store.closed = false) : Invariant config (.accepting store) := by
  apply Invariant.of_laws _ rfl
  constructor
  · exact fun _ _ hattempt ↦ nomatch hattempt
  · exact fun _ hlisted ↦ absurd hlisted List.not_mem_nil
  · exact fun _ _ hattempt ↦ nomatch hattempt
  · exact fun _ _ _ _ hattempt ↦ nomatch hattempt
  · exact fun hclosed ↦ nomatch hclosed
  · intro hclosed
    exact absurd (hopened.symm.trans hclosed) (by decide)

theorem Run.invariant (run : Run config store state) (hopened : store.closed = false) :
    Invariant config state := by
  induction run with
  | start => exact .start hopened
  | step _ step ih => exact ih.step step

theorem Run.quiet (run : Run config store state) (hidle : state.stage = .idle) :
    state.deferred = [] := by
  induction run with
  | start => rfl
  | step run step ih =>
    cases step with
    | submit => cases hidle
    | read => cases hidle
    | close => cases hidle
    | turn => cases hidle
    | maintain => cases hidle
    | reentrantTurn busy => exact absurd hidle busy
    | reentrantMaintenance busy => exact absurd hidle busy
    | act => cases hidle
    | deferred => cases hidle
    | leave environment leaving empty =>
      unfold Lifecycle.closeIfDrained
      split <;> exact empty

end Runs

section Progress

variable {config : RecoveryConfiguration} {environment : Environment} {state : Lifecycle} {id : ℕ}
  {attempt : Attempt}

theorem settle_done (environment : Environment) (state : Lifecycle) (id : ℕ) (attempt : Attempt)
    (fault : Option Failure) :
    ∃ after, (state.settle environment id attempt fault).1.registry id = some after ∧
      after.done = true := ⟨_, Function.update_self id _ state.registry, rfl⟩

theorem finish_done (environment : Environment) (fault : Option Failure)
    (h : state.registry id = some attempt) :
    ∃ after, (state.finish environment id fault).1.registry id = some after ∧
      after.done = true := by
  unfold Lifecycle.finish
  rw [h]
  dsimp only
  by_cases hdone : attempt.done = true
  · rw [if_pos hdone]
    exact ⟨attempt, h, hdone⟩
  · rw [if_neg hdone]
    obtain ⟨after, hafter, hended⟩ := settle_done environment state id attempt fault
    split
    · refine ⟨after, ?_, hended⟩
      exact (congrFun (kept_shutdown environment _ _).registry id).trans hafter
    · exact ⟨after, hafter, hended⟩

theorem finishAndStop_done (environment : Environment) (fault : Failure)
    (h : state.registry id = some attempt) :
    ∃ after, (state.finishAndStop environment id fault).registry id = some after ∧
      after.done = true := by
  obtain ⟨after, hafter, hended⟩ := finish_done environment (some fault) h
  unfold Lifecycle.finishAndStop
  dsimp only
  split
  · exact ⟨after, hafter, hended⟩
  · exact ⟨after, (congrFun (kept_shutdown environment _ _).registry id).trans hafter, hended⟩

theorem scheduleMember_advances (environment : Environment) (h : state.registry id = some attempt) :
    ∃ after, (state.scheduleMember environment id).registry id = some after ∧
      (after.done = true ∨ after.next = attempt.next) := by
  unfold Lifecycle.scheduleMember
  split
  · rw [h]
    exact ⟨_, Function.update_self id _ state.registry, .inr rfl⟩
  · obtain ⟨after, hafter, hended⟩ := finishAndStop_done environment _ h
    exact ⟨after, hafter, .inl hended⟩

theorem memberRan_advances (environment : Environment) (h : state.registry id = some attempt) :
    ∃ after, (state.memberRan environment id attempt).registry id = some after ∧
      (after.done = true ∨ after.next = attempt.next + 1) := by
  have hadvanced : (state.setAttempt id { attempt with next := attempt.next + 1 }).registry id =
      some { attempt with next := attempt.next + 1 } := Function.update_self id _ state.registry
  unfold Lifecycle.memberRan
  split
  · obtain ⟨after, hafter, hended⟩ := finish_done environment (some (failure .project)) h
    exact ⟨after, hafter, .inl hended⟩
  · dsimp only
    split
    · split
      · obtain ⟨after, hafter, hended⟩ :=
          finish_done environment (some (failure .project)) hadvanced
        exact ⟨after, hafter, .inl hended⟩
      · obtain ⟨after, hafter, hended⟩ := finish_done environment none hadvanced
        exact ⟨after, hafter, .inl hended⟩
    · exact scheduleMember_advances environment hadvanced

theorem turn_advances (config : RecoveryConfiguration) (environment : Environment)
    (h : state.registry id = some attempt) (hopen : attempt.done = false) :
    ∃ after, (state.turn config environment id).registry id = some after ∧
      (after.done = true ∨ after.next = attempt.next + 1) := by
  unfold Lifecycle.turn
  rw [h]
  dsimp only
  rw [if_neg (by rw [hopen]; exact Bool.false_ne_true)]
  split
  · obtain ⟨after, hafter, hended⟩ := finish_done environment (some state.fenceFault) h
    exact ⟨after, hafter, .inl hended⟩
  · have hran (changed : Lifecycle)
        (hregistry : changed.registry = Function.update state.registry id
          (some { attempt with ran := attempt.ran ++ [attempt.next] })) :
        changed.registry id = some { attempt with ran := attempt.ran ++ [attempt.next] } := by
      rw [hregistry, Function.update_self]
    cases (Lifecycle.runMember config state.store attempt environment.member).2 with
    | ok value => exact memberRan_advances environment (hran _ rfl)
    | error error =>
      obtain ⟨after, hafter, hended⟩ := finish_done environment (some (failure .member))
        (hran { state.setAttempt id { attempt with ran := attempt.ran ++ [attempt.next] } with
          store := (Lifecycle.runMember config state.store attempt environment.member).1
          storeFenced := state.storeFenced || fenced error } rfl)
      dsimp only
      split
      · refine ⟨after, ?_, .inl hended⟩
        exact (congrFun (kept_shutdown environment _ _).registry id).trans hafter
      · exact ⟨after, hafter, .inl hended⟩

end Progress

section Lifecycles

variable {config : RecoveryConfiguration} {store : RecoveryStore} {state : Lifecycle}

/-- What is promised of an owner between any two steps. -/
structure Orderly (config : RecoveryConfiguration) (state : Lifecycle) : Prop where
  /-- An attempt is settled at most once, and not at all while it is in the set. -/
  once : ∀ id attempt, state.registry id = some attempt →
    (id ∈ state.attempts ∧ attempt.settlements = []) ∨
      (id ∉ state.attempts ∧ attempt.settlements.length = 1)
  /-- While it is in the set, one of its callbacks is to come. -/
  pending : ∀ id ∈ state.attempts, ∃ attempt, state.registry id = some attempt ∧
    (attempt.token = .runnable ∨ state.stage = .acting (.turn id) ∨ .fail id ∈ state.deferred)
  /-- A turn of it settles it, or leaves one member less to run. -/
  advances : ∀ id environment, state.stage = .acting (.turn id) → id ∈ state.attempts →
    ∃ attempt after, state.registry id = some attempt ∧ attempt.next < attempt.operations ∧
      (state.act config environment (.turn id)).registry id = some after ∧
      (after.done = true ∨ after.next = attempt.next + 1)
  /-- Its members were run in the order of their indices, each of them once. -/
  members : ∀ id attempt, state.registry id = some attempt →
    attempt.ran = List.range attempt.ran.length ∧ attempt.ran.length ≤ attempt.operations
  /-- After a cleanup that returned, none of its claims is left. -/
  released : ∀ id attempt count, state.registry id = some attempt →
    attempt.cleanup = some (.returned count) →
    ∀ row ∈ state.store.persisted.rows,
      claimedBy row attempt.admission.principal attempt.admission.attemptId = false
  /-- The store is closed only when every attempt is settled. -/
  closed : state.store.closed = true → ∀ id attempt, state.registry id = some attempt →
    attempt.settlements.length = 1
  /-- When nothing is left to call back, every attempt is settled. -/
  quiescent : state.stage = .idle →
    (∀ id attempt, state.registry id = some attempt → attempt.token = .none) →
    ∀ id attempt, state.registry id = some attempt → attempt.settlements.length = 1

/-- The lifecycle of sequence attempts, for every order of submissions, turns, faults and closes. -/
theorem lifecycle_orderly (run : Run config store state) (hopened : store.closed = false) :
    Orderly config state := by
  have hinvariant := run.invariant hopened
  have honce : ∀ id attempt, state.registry id = some attempt →
      (id ∈ state.attempts ∧ attempt.settlements = []) ∨
        (id ∉ state.attempts ∧ attempt.settlements.length = 1) := by
    intro id attempt hattempt
    have hlaw := hinvariant.laws.attempt id attempt hattempt
    cases hdone : attempt.done with
    | false => exact .inl ⟨(hlaw.unsettled hdone).listed, (hlaw.unsettled hdone).settlements⟩
    | true => exact .inr ⟨(hlaw.settled hdone).unlisted, (hlaw.settled hdone).once⟩
  have hpending : ∀ id ∈ state.attempts, ∃ attempt, state.registry id = some attempt ∧
      (attempt.token = .runnable ∨ state.stage = .acting (.turn id) ∨
        .fail id ∈ state.deferred) := by
    intro id hid
    obtain ⟨attempt, hattempt, hopen⟩ := hinvariant.laws.listed id hid
    refine ⟨attempt, hattempt, ?_⟩
    by_cases hexempt : state.stage.exempt = some id
    · right
      left
      unfold Stage.exempt at hexempt
      split at hexempt
      · next other hstage => rw [hstage, Option.some.inj hexempt]
      · cases hexempt
    · obtain ⟨-, hcall | hcall⟩ :=
        (hinvariant.laws.attempt id attempt hattempt).ready hopen hexempt
      · exact .inl hcall
      · exact .inr (.inr hcall)
  constructor
  case once => exact honce
  case pending => exact hpending
  case advances =>
    intro id environment hstage hid
    obtain ⟨attempt, hattempt, hopen⟩ := hinvariant.laws.listed id hid
    have hready := hinvariant.ready id (by rw [hstage]; rfl) attempt hattempt hopen
    obtain ⟨after, hafter, hadvance⟩ := turn_advances config environment hattempt hopen
    exact ⟨attempt, after, hattempt, hready.remains, hafter, hadvance⟩
  case members =>
    intro id attempt hattempt
    obtain ⟨hran, hwithin⟩ := (hinvariant.laws.attempt id attempt hattempt).order
    exact ⟨hran, hwithin⟩
  case released =>
    intro id attempt count hattempt hcleanup
    exact (hinvariant.laws.attempt id attempt hattempt).released count hcleanup
  case closed =>
    intro hclosed id attempt hattempt
    have hempty := hinvariant.laws.closed (hinvariant.laws.storeClosed hclosed)
    obtain ⟨hid, -⟩ | ⟨-, hsettled⟩ := honce id attempt hattempt
    · rw [hempty] at hid
      cases hid
    · exact hsettled
  case quiescent =>
    intro hidle htokens id attempt hattempt
    obtain ⟨hid, -⟩ | ⟨-, hsettled⟩ := honce id attempt hattempt
    · obtain ⟨other, hother, hcall⟩ := hpending id hid
      rw [htokens id other hother, hidle, run.quiet hidle] at hcall
      obtain hcall | hcall | hcall := hcall <;> cases hcall
    · exact hsettled

def quietEnvironment : Environment :=
  { maintenanceCancelFails := false, cancelFails := fun _ ↦ false, abandon := fun _ ↦ .none
    scheduling := .runnable
    member := .executes (.decide (.retain ⟨"{}", "{}", "{}", .success, 0, dayMs⟩)) .none none
    projects := true, assembles := true, remains := false, now := some 0, expire := .none
    storeCloseFails := false }

/-- A sequence of two members runs both of them and is resolved. -/
theorem lifecycle_orderly_sequence :
    ∃ state, Run RecoveryStore.countedConfiguration (.created RecoveryStore.emptyTables) state ∧
      ((state.registry 0).map fun attempt ↦ (attempt.ran, attempt.settlements)) =
        some ([0, 1], [.resolved]) ∧
      Orderly RecoveryStore.countedConfiguration state := by
  have hstart : Run RecoveryStore.countedConfiguration (.created RecoveryStore.emptyTables) _ :=
    .start
  have hsubmitted := hstart.step (.submit (.admits true "p" ["k", "l"] .none) rfl)
  have hadmitted := (hsubmitted.step (.act quietEnvironment rfl)).step
    (.leave quietEnvironment rfl rfl)
  have hfirst := ((hadmitted.step (@Step.turn _ _ 0 _ rfl rfl rfl)).step
    (.act quietEnvironment rfl)).step (.leave quietEnvironment rfl rfl)
  have hsecond := (hfirst.step (@Step.turn _ _ 0 _ rfl rfl rfl)).step (.act quietEnvironment rfl)
  exact ⟨_, hsecond, by decide +kernel, lifecycle_orderly hsecond rfl⟩

end Lifecycles

end Bdp.Sequence
