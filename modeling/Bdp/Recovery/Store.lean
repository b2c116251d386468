import Bdp.Recovery.Member

/-!
# Recovery store

Admission of carrier keys, the execution of one member under its claim, and the calls that free,
expire and recover claims. Every call runs in one transaction of the database; the transaction may
fail in the database or at its commit, and then the handle is fenced until the store is reopened.
-/

namespace Bdp.Recovery

/-- What survives the process. -/
structure Persisted where
  tables : Tables
  rows : List KeyRow

structure Admission where
  attemptId : String
  principal : String
  keys : List String
  states : List KeyState
  deriving DecidableEq

/-- How the database treats the transaction of a call. -/
inductive Fault where
  | none
  /-- A statement fails in the database. -/
  | statement
  /-- The commit fails; whether the transaction is durable is seen at the next opening. -/
  | commit (durable : Bool)
  deriving DecidableEq, Repr

structure RecoveryStore where
  persisted : Persisted
  closed : Bool
  fenced : Bool
  /-- The admissions that this handle has made. -/
  admissions : List Admission
  /-- How many attempt identities have been drawn. -/
  attempts : ℕ

structure RecoveryConfiguration where
  platform : Platform
  retention : ℤ
  day_le_retention : dayMs ≤ retention

inductive MemberCompletion where
  | completed (outcomeJson : String)
  | released
  | existing (state : KeyState)
  deriving DecidableEq, Repr

/-- Insert a claim row for a key that has no row. -/
def insertClaim (rows : List KeyRow) (principal key attemptId : String) : List KeyRow :=
  rows ++ [KeyRow.claim principal key attemptId]

def claimedBy (row : KeyRow) (principal attemptId : String) : Bool :=
  row.principal == principal && row.state == .claimed attemptId

def deleteClaim (rows : List KeyRow) (principal key attemptId : String) : List KeyRow :=
  rows.filter fun row ↦ !(row.key == key && claimedBy row principal attemptId)

theorem KeyState.retained_known (outcome : RetainedKey) : retained outcome ≠ unknown := nofun

def KeyRow.retain (row : KeyRow) (outcome : RetainedKey) : KeyRow :=
  { row with state := .retained outcome, known := KeyState.retained_known outcome }

/-- Turn the owned claim into the retained outcome. -/
def retainClaim (rows : List KeyRow) (principal key attemptId : String) (outcome : RetainedKey) :
    List KeyRow :=
  rows.map fun row ↦
    if row.key == key && claimedBy row principal attemptId then row.retain outcome else row

/-- A retained success becomes a tombstone once its retention has passed. -/
def KeyRow.tombstone (row : KeyRow) (now : ℤ) : KeyRow :=
  match row.state with
  | .retained outcome =>
    if outcome.effect = .success ∧ outcome.retainUntil ≤ now then
      { row with state := .expired outcome.fingerprint outcome.resolutionsJson, known := nofun }
    else row
  | _ => row

def KeyRow.forgotten (row : KeyRow) (now : ℤ) : Bool :=
  match row.state with
  | .retained outcome => outcome.effect == .failure && decide (outcome.retainUntil ≤ now)
  | _ => false

def expireRows (rows : List KeyRow) (now : ℤ) : List KeyRow :=
  (rows.filter fun row ↦ !row.forgotten now).map fun row ↦ row.tombstone now

namespace RecoveryStore

variable (config : RecoveryConfiguration) (store : RecoveryStore)

def available : Except Thrown Unit := do
  check (¬ store.closed = true)
    (.store ⟨.closed, "recovery store is closed; reopen before use"⟩)
  check (¬ store.fenced = true)
    (.store ⟨.fenced, "recovery store is fenced; reopen before use"⟩)

def fencedFailure : Thrown :=
  .store ⟨.fenced, "recovery store fenced after transaction failure; reopen before use"⟩

/-- Run the callback in a transaction: a throw rolls back, a failing database fences. -/
def transaction {α : Type} (fault : Fault) (callback : Persisted → Except Thrown (Persisted × α)) :
    RecoveryStore × Except Thrown α :=
  match store.available with
  | .error thrown => (store, .error thrown)
  | .ok () =>
    match fault, callback store.persisted with
    | .none, .ok (persisted, result) => ({ store with persisted }, .ok result)
    | .statement, _ => ({ store with fenced := true }, .error fencedFailure)
    | .commit durable, .ok (persisted, _) =>
      ({ store with
          persisted := if durable then persisted else store.persisted
          fenced := true }, .error fencedFailure)
    | _, .error thrown => (store, .error thrown)

/-- Claim every key of the carrier that is unknown. -/
def claimUnknown (rows : List KeyRow) (principal attemptId : String) (keys : List String) :
    List KeyRow :=
  keys.foldl (fun claimed key ↦
    if keyState rows principal key = .unknown then insertClaim claimed principal key attemptId
    else claimed) rows

/-- The transaction of an admission: the states of the keys are seen before any is claimed. -/
def admitTransaction (attemptId principal : String) (keys : List String)
    (validate : List KeyState → Option Thrown) (persisted : Persisted) :
    Except Thrown (Persisted × Admission) :=
  let states := keys.map fun key ↦ keyState persisted.rows principal key
  match validate states with
  | some thrown => .error thrown
  | none =>
    .ok ({ persisted with rows := claimUnknown persisted.rows principal attemptId keys },
      { attemptId, principal, keys, states })

def admitMembers (fault : Fault) (principal : String) (keys : List String)
    (validate : List KeyState → Option Thrown) : RecoveryStore × Except Thrown Admission :=
  let checked : Except Thrown Unit := do
    (requireText principal "principal").mapError .store
    check (keys ≠ [] ∧ keys.Nodup)
      (.store ⟨.invalidInput, "carrier keys must be nonempty and unique"⟩)
    check (∀ key ∈ keys, key ≠ "")
      (.store ⟨.invalidInput, "idempotency key must be nonempty text"⟩)
  match checked with
  | .error thrown => (store, .error thrown)
  | .ok () =>
    let attemptId := config.platform.randomUUID store.attempts
    let drawn := { store with attempts := store.attempts + 1 }
    let (after, result) :=
      drawn.transaction fault (admitTransaction attemptId principal keys validate)
    match result with
    | .error thrown => (after, .error thrown)
    | .ok admission =>
      ({ after with admissions := after.admissions ++ [admission] }, .ok admission)

def checkAdmission (admission : Admission) (key : Option String) : Except Thrown Unit := do
  check (admission ∈ store.admissions)
    (.store ⟨.invalidAdmission, "admission is not owned by this store handle"⟩)
  (requireText admission.attemptId "attemptId").mapError .store
  (requireText admission.principal "principal").mapError .store
  check (key.all (fun key ↦ admission.keys.contains key) = true)
    (.store ⟨.invalidAdmission, "key was not in the admitted carrier"⟩)

/-- The rows and the state of a key that the attempt may execute, or what stands there instead. -/
def ownedRows (rows : List KeyRow) (admission : Admission) (key : String) :
    Except KeyState (List KeyRow) :=
  match keyState rows admission.principal key with
  | .unknown => .ok (insertClaim rows admission.principal key admission.attemptId)
  | .claimed attemptId =>
    if attemptId = admission.attemptId then .ok rows else .error (.claimed attemptId)
  | state => .error state

def retainedKey (outcome : MemberOutcome) : RetainedKey :=
  { semanticIdentityJson := outcome.semanticIdentityJson
    fingerprint := config.platform.sha256 outcome.semanticIdentityJson
    resolutionsJson := outcome.resolutionsJson
    outcomeJson := outcome.outcomeJson
    effect := outcome.effect
    completedAt := outcome.completedAt
    retainUntil := outcome.retainUntil }

def checkOutcome (outcome : MemberOutcome) : Except Thrown Unit := do
  requireJson config.platform outcome.semanticIdentityJson
  requireJson config.platform outcome.resolutionsJson
  requireJson config.platform outcome.outcomeJson
  (requireTime outcome.completedAt).mapError .store
  (requireTime outcome.retainUntil).mapError .store
  check (config.retention ≤ outcome.retainUntil - outcome.completedAt)
    (.store ⟨.retentionTooShort, "outcome retention is shorter than the promised minimum"⟩)

/-- The transaction of one member. A failure and a release roll the effects back. -/
def memberTransaction (admission : Admission) (key : String) (evaluate : MemberEvaluation)
    (persisted : Persisted) : Except Thrown (Persisted × MemberCompletion) :=
  match ownedRows persisted.rows admission key with
  | .error state => .ok (persisted, .existing state)
  | .ok rows => do
    let (tables, decision) ← evaluate.run config.platform rows persisted.tables
    match decision with
    | .release =>
      pure ({ persisted with
        rows := deleteClaim rows admission.principal key admission.attemptId }, .released)
    | .retain outcome =>
      checkOutcome config outcome
      check ((rows.filter fun row ↦ row.key == key &&
          claimedBy row admission.principal admission.attemptId).length = 1)
        (.store ⟨.lostClaim, "member lost claim ownership"⟩)
      pure ({ tables := if outcome.effect = .failure then persisted.tables else tables
              rows := retainClaim rows admission.principal key admission.attemptId
                (retainedKey config outcome) }, .completed outcome.outcomeJson)

def executeMember (fault : Fault) (admission : Admission) (key : String)
    (evaluate : MemberEvaluation) : RecoveryStore × Except Thrown MemberCompletion :=
  match store.checkAdmission admission (some key) with
  | .error thrown => (store, .error thrown)
  | .ok () => store.transaction fault (memberTransaction config admission key evaluate)

def releaseOwnedClaim (fault : Fault) (admission : Admission) (key : String) :
    RecoveryStore × Except Thrown Bool :=
  match store.checkAdmission admission (some key) with
  | .error thrown => (store, .error thrown)
  | .ok () => store.transaction fault fun persisted ↦
      .ok ({ persisted with
          rows := deleteClaim persisted.rows admission.principal key admission.attemptId },
        decide ((persisted.rows.filter fun row ↦ row.key == key &&
          claimedBy row admission.principal admission.attemptId).length = 1))

def abandonAttempt (fault : Fault) (admission : Admission) : RecoveryStore × Except Thrown ℕ :=
  match store.checkAdmission admission none with
  | .error thrown => (store, .error thrown)
  | .ok () => store.transaction fault fun persisted ↦
      .ok ({ persisted with
          rows := persisted.rows.filter fun row ↦
            !claimedBy row admission.principal admission.attemptId },
        (persisted.rows.filter fun row ↦
          claimedBy row admission.principal admission.attemptId).length)

def expire (fault : Fault) (now : ℤ) : RecoveryStore × Except Thrown Unit :=
  match (requireTime now).mapError .store with
  | .error thrown => (store, .error thrown)
  | .ok () => store.transaction fault fun persisted ↦
      .ok ({ persisted with rows := expireRows persisted.rows now }, ())

def close : RecoveryStore := { store with closed := true }

/-- Open the store again, at any time: what no transaction committed is gone, and so are all claims.
When the opening fails, the handle stays closed. -/
def reopen (fault : Fault) : RecoveryStore :=
  let recovered : Persisted :=
    { store.persisted with rows := store.persisted.rows.filter fun row ↦ !row.isClaimed }
  match fault with
  | .none => { store with persisted := recovered, closed := false, fenced := false, admissions := [] }
  | .statement => { store with closed := true, admissions := [] }
  | .commit durable =>
    { store with
      persisted := if durable then recovered else store.persisted
      closed := true
      admissions := [] }

end RecoveryStore

def RecoveryStore.created (tables : Tables) : RecoveryStore :=
  { persisted := { tables, rows := [] }, closed := false, fenced := false, admissions := []
    attempts := 0 }

/-- A call of the store, or its process ending and the store opening again. -/
inductive StoreCall where
  | admitMembers (principal : String) (keys : List String) (validate : List KeyState → Option Thrown)
  | executeMember (admission : Admission) (key : String) (evaluate : MemberEvaluation)
  | releaseOwnedClaim (admission : Admission) (key : String)
  | abandonAttempt (admission : Admission)
  | expire (now : ℤ)
  | close
  | reopen

namespace RecoveryStore

variable (config : RecoveryConfiguration) (store : RecoveryStore)

def call (fault : Fault) : StoreCall → RecoveryStore
  | .admitMembers principal keys validate => (store.admitMembers config fault principal keys validate).1
  | .executeMember admission key evaluate =>
    (store.executeMember config fault admission key evaluate).1
  | .releaseOwnedClaim admission key => (store.releaseOwnedClaim fault admission key).1
  | .abandonAttempt admission => (store.abandonAttempt fault admission).1
  | .expire now => (store.expire fault now).1
  | .close => store.close
  | .reopen => store.reopen fault

def admitted (fault : Fault) : StoreCall → List Admission
  | .admitMembers principal keys validate =>
    match (store.admitMembers config fault principal keys validate).2 with
    | .ok admission => [admission]
    | .error _ => []
  | _ => []

/-- The key whose successful effects a call makes durable. -/
def effects (fault : Fault) : StoreCall → List (String × String)
  | .executeMember admission key evaluate =>
    match store.checkAdmission admission (some key), store.available,
      ownedRows store.persisted.rows admission key with
    | .ok (), .ok (), .ok rows =>
      match evaluate.run config.platform rows store.persisted.tables,
        memberTransaction config admission key evaluate store.persisted with
      | .ok (_, .retain outcome), .ok _ =>
        if outcome.effect = .success ∧ (fault = .none ∨ fault = .commit true) then
          [(admission.principal, key)]
        else []
      | _, _ => []
    | _, _, _ => []
  | _ => []

/-- The store after a list of calls, with the admissions handed out and the effects committed. -/
inductive Run (tables : Tables) : RecoveryStore → List Admission → List (String × String) → Prop where
  | created : Run tables (.created tables) [] []
  | called {store : RecoveryStore} {issued : List Admission} {committed : List (String × String)}
      (fault : Fault) (call : StoreCall) (run : Run tables store issued committed) :
      Run tables (store.call config fault call) (issued ++ store.admitted config fault call)
        (committed ++ store.effects config fault call)

end RecoveryStore

end Bdp.Recovery
