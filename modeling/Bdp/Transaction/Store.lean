import Bdp.Transaction.Receipts

/-!
# Transaction store

One handle on the durable part, with the claims and the sequences that live as long as the handle.
Every entry runs in one or more transactions of the database. A thrown error rolls its transaction
back; a failing database or commit fences the owner until the store is opened again.
-/

namespace Bdp.Transaction

/-- How the database treats one transaction. -/
inductive Fault where
  | none
  /-- The program throws inside the transaction. -/
  | throws
  | statement
  /-- The commit fails; whether it is durable is seen at the next opening. -/
  | commit (durable : Bool)
  deriving DecidableEq, Repr

inductive Attempt (α : Type) where
  | ok (value : α)
  | thrown (message : String)
  | fenced
  deriving DecidableEq

structure SequenceState where
  id : String
  principal : String
  members : List SequenceMember
  /-- The claims of the members that this sequence owns, by member index. -/
  owned : List (ℕ × String)
  next : ℕ
  cancelled : Bool
  deriving DecidableEq

structure TransactionStore where
  persisted : Persisted
  authorization : TransactionAuthorization
  claims : List Claim
  sequences : List SequenceState
  activeSequences : List String
  mutationPause : Option ℕ
  /-- Fenced, failed or closed. -/
  stopped : Bool
  /-- How many entries there have been. -/
  turn : ℕ
  deriving DecidableEq

inductive SequenceResult where
  | receipt (receipt : Receipt)
  | conflict
  | transient
  deriving DecidableEq

/-- Give the owned pending row the identity that its deferred request turned out to have. -/
def Persisted.bindOwned (persisted : Persisted) (claim : Claim)
    (normalized : NormalizedTransaction) : Persisted :=
  { persisted with receipts := persisted.receipts.map fun row ↦
      if row.ownedBy claim.principal claim.key claim.owner then
        { row with identity := normalized.identity, witnesses := normalized.witnessesJson
                   dependency := none }
      else row }

namespace TransactionStore

variable (config : StoreConfiguration) (store : TransactionStore)

def atomic {α : Type} (fault : Fault) (run : Persisted → Except String (Persisted × α)) :
    TransactionStore × Attempt α :=
  match fault, run store.persisted with
  | .none, .ok (persisted, value) => ({ store with persisted }, .ok value)
  | .throws, _ => (store, .thrown "thrown inside the transaction")
  | .statement, _ => ({ store with stopped := true }, .fenced)
  | .commit durable, .ok (persisted, _) =>
    ({ store with
        persisted := if durable then persisted else store.persisted
        stopped := true }, .fenced)
  | _, .error message => (store, .thrown message)

def andThen {α β : Type} (outcome : TransactionStore × Attempt α)
    (next : TransactionStore → α → TransactionStore × Attempt β) : TransactionStore × Attempt β :=
  match outcome.2 with
  | .ok value => next outcome.1 value
  | .thrown message => (outcome.1, .thrown message)
  | .fenced => (outcome.1, .fenced)

/-- After a throw, clean up in another transaction; a failing cleanup fences. -/
def cleanupThenThrow {α : Type} (outcome : TransactionStore × Attempt α) (fault : Fault)
    (cleanup : Persisted → Persisted) : TransactionStore × Attempt α :=
  match outcome.2 with
  | .thrown message =>
    let cleaned := outcome.1.atomic fault fun persisted ↦ .ok (cleanup persisted, ())
    match cleaned.2 with
    | .ok _ => (cleaned.1, .thrown message)
    | _ => ({ cleaned.1 with stopped := true }, .fenced)
  | _ => outcome

def dropClaim (owner : String) : TransactionStore :=
  { store with claims := store.claims.filter fun claim ↦ claim.owner != owner }

def claim (owner : String) : Option Claim := store.claims.find? fun claim ↦ claim.owner == owner

def checkKey (principal key : String) : Except String Unit :=
  check (principal ≠ "" ∧ key ≠ "" ∧ key.length ≤ 256 ∧ ∀ letter ∈ key.toList,
    isTokenChar letter = true) "principal/key required"

/-- A private refusal while admission is paused or the policy forbids mutation. -/
def checkMutation : Except String Unit := do
  check (store.mutationPause = none) "temporarily-unavailable"
  check (store.authorization.canMutate = true) "forbidden"

def admitRequest (faults : ℕ → Fault) (clock : Clock) (principal key : String)
    (batch : PreparedTransaction) (controls : TransactionReceivingControls) :
    TransactionStore × Attempt TransactionAdmission :=
  match (do checkKey principal key; store.checkMutation : Except String Unit) with
  | .error message => (store, .thrown message)
  | .ok () =>
    andThen (store.atomic (faults 0) fun persisted ↦
        admitKey config persisted (instant clock 0) store.turn 0 principal key batch false [] none
          (some controls)) fun after admission ↦
      match admission with
      | .owned claim => ({ after with claims := after.claims ++ [claim] }, .ok admission)
      | .existing _ => (after, .ok (if controls.acceptsJson then admission else .notAcceptable))
      | _ => (after, .ok admission)

/-- Execute a claim. When the execution throws, only its own pending row is retracted. -/
def executeClaim (faults : ℕ → Fault) (index : ℕ) (clock : Clock) (evaluators : Evaluators)
    (owner : String) : TransactionStore × Attempt Receipt :=
  match store.claim owner with
  | none => (store, .thrown "foreign transaction claim")
  | some claim =>
    let settled := cleanupThenThrow
      (store.atomic (faults index)
        (executeTransaction config evaluators clock store.turn claim))
      (faults (index + 1)) fun persisted ↦
        persisted.deleteOwned claim.principal claim.key claim.owner
    (settled.1.dropClaim owner, settled.2)

def retract (faults : ℕ → Fault) (owner : String) : TransactionStore × Attempt Bool :=
  match store.claim owner with
  | none => (store, .ok false)
  | some claim => store.atomic (faults 0) fun persisted ↦
      .ok (persisted.deleteOwned claim.principal claim.key claim.owner,
        persisted.receipts.any fun row ↦ row.ownedBy claim.principal claim.key claim.owner)

def isCreator (operation : String) : Bool := operation == "createBead" || operation == "createLink"

/-- A creator of the sequence starts with an unresolved fact. -/
def trackCreator (persisted : Persisted) (id : String) (member : SequenceMember) (index : ℕ) :
    Persisted :=
  if isCreator member.operation then { persisted with
    creatorFacts := persisted.creatorFacts ++ [{ attempt := id, member := index, fact := none }] }
  else persisted

/-- Admit a member whose key is unknown; the others are classified at their turn. -/
def admitUnknown (clock : Clock) (turn : ℕ) (principal id : String)
    (state : Persisted × List (ℕ × Claim)) (entry : SequenceMember × ℕ) :
    Except String (Persisted × List (ℕ × Claim)) := do
  let (member, index) := entry
  let (persisted, existing) ← (trackCreator state.1 id member index).currentRow principal member.key
    (instant clock (2 * index))
  match existing with
  | some _ => pure (persisted, state.2)
  | none => do
    let template := if member.deferred then some (config.dependencyTemplate id member) else none
    let (persisted, admission) ← admitKey config persisted (instant clock (2 * index + 1)) turn
      (3 * index + 1) principal member.key member.request true [] template none
    match admission with
    | .owned claim =>
      let creator :=
        if isCreator member.operation then some (id, index, member.operation) else none
      pure (persisted, state.2 ++ [(index, { claim with creator })])
    | _ => pure (persisted, state.2)

def admitMembers (persisted : Persisted) (clock : Clock) (turn : ℕ) (principal id : String)
    (members : List (SequenceMember × ℕ)) : Except String (Persisted × List (ℕ × Claim)) :=
  members.foldlM (admitUnknown config clock turn principal id) (persisted, [])

def admitSequence (faults : ℕ → Fault) (clock : Clock) (principal : String)
    (members : List SequenceMember) : TransactionStore × Attempt String :=
  match (do store.checkMutation; members.forM fun member ↦ checkKey principal member.key :
      Except String Unit) with
  | .error message => (store, .thrown message)
  | .ok () =>
    let id := config.uuid store.turn 0
    andThen (store.atomic (faults 0) fun persisted ↦
        admitMembers config persisted clock store.turn principal id members.zipIdx)
      fun after owned ↦
        ({ after with
            claims := after.claims ++ owned.map Prod.snd
            sequences := after.sequences ++ [{
              id, principal, members
              owned := owned.map fun entry ↦ (entry.1, entry.2.owner)
              next := 0
              cancelled := false }]
            activeSequences := after.activeSequences ++ [id] }, .ok id)

def sequenceOf (id : String) : Option SequenceState :=
  store.sequences.find? fun state ↦ state.id == id

def setSequence (state : SequenceState) : TransactionStore :=
  { store with sequences := store.sequences.map fun other ↦
      if other.id = state.id then state else other }

def ownedClaims (state : SequenceState) : List Claim :=
  state.owned.filterMap fun entry ↦ store.claim entry.2

def releaseSequence (claims : List Claim) (id : String) (persisted : Persisted) : Persisted :=
  let released := claims.foldl (fun persisted claim ↦
    persisted.deleteOwned claim.principal claim.key claim.owner) persisted
  { released with creatorFacts := released.creatorFacts.filter fun row ↦ row.attempt != id }

def cancelSequence (fault : Fault) (id : String) : TransactionStore × Attempt Unit :=
  match store.sequenceOf id with
  | none => (store, .thrown "foreign transaction sequence admission")
  | some state =>
    if state.cancelled = true ∨ state.next = state.members.length then (store, .ok ())
    else
      andThen (store.atomic fault fun persisted ↦
          .ok (releaseSequence (store.ownedClaims state) id persisted, ())) fun after _ ↦
        let cancelled := after.setSequence { state with cancelled := true }
        ({ cancelled with
            activeSequences := cancelled.activeSequences.filter (· != id)
            claims := cancelled.claims.filter fun claim ↦
              !(state.owned.any fun entry ↦ entry.2 == claim.owner) }, .ok ())

/-- What the creators of a deferred member have bound; an unresolved creator is an error. -/
def memberReferences (state : SequenceState) (member : SequenceMember) :
    Except String (Option ReferenceBindings) :=
  if member.deferred then do
    let template := config.dependencyTemplate state.id member
    let fact (index : ℕ) : Option CreatorFact :=
      (store.persisted.creatorFacts.find? fun row ↦
        row.attempt == state.id && row.member == index).bind CreatorRow.fact
    check (∀ index ∈ config.dependencyMembers template, (fact index).isSome = true)
      "creator turn not resolved"
    pure (config.resolveDependencies template fun index ↦ (fact index).getD .unbound)
  else .ok (some [])

/-- Bind the deferred request of an owned member, whose identity was not known before. -/
def resolveMember (fault : Fault) (state : SequenceState) (member : SequenceMember) (claim : Claim)
    (references : ReferenceBindings) : TransactionStore × Attempt Unit :=
  match store.persisted.row claim.principal claim.key with
  | none => (store, .thrown "dependent resolution fenced")
  | some current =>
    if current.owner ≠ some claim.owner then (store, .thrown "dependent resolution fenced")
    else
      match current.dependency with
      | none =>
        if member.deferred = true ∨ claim.normalized = none then
          (store, .thrown "sequence deferral state differs")
        else (store, .ok ())
      | some template =>
        andThen (store.atomic fault fun persisted ↦ do
            check (member.deferred = true ∧ template = config.dependencyTemplate state.id member)
              "sequence deferral template differs"
            let normalized ← config.normalize member.request (persisted.resolveAlias config) none
              references
            pure (persisted.bindOwned claim normalized, normalized)) fun after normalized ↦
          ({ after with claims := after.claims.map fun other ↦
              if other.owner = claim.owner then { other with normalized := some normalized }
              else other }, .ok ())

/-- Admit a member that the sequence does not own yet. -/
def admitMember (fault : Fault) (clock : Clock) (state : SequenceState) (index : ℕ)
    (member : SequenceMember) (references : ReferenceBindings) :
    TransactionStore × Attempt TransactionAdmission :=
  andThen (store.atomic fault fun persisted ↦
      admitKey config persisted (instant clock 2) store.turn 0 state.principal member.key
        member.request true references none none) fun after admission ↦
    match admission with
    | .owned claim =>
      let creator :=
        if isCreator member.operation then some (state.id, index, member.operation) else none
      let extended := after.setSequence { state with owned := state.owned ++ [(index, claim.owner)] }
      ({ extended with claims := extended.claims ++ [{ claim with creator }] }, .ok admission)
    | _ => (after, .ok admission)

def turnFact (operation : String) : SequenceResult → Except String CreatorFact
  | .transient => .ok .transient
  | .receipt receipt => creatorFact operation (some receipt)
  | .conflict => creatorFact operation none

/-- Record what a creator's turn bound, unless its execution did. -/
def recordTurn (fault : Fault) (state : SequenceState) (index : ℕ) (member : SequenceMember)
    (wroteCreator : Bool) (result : SequenceResult) : TransactionStore × Attempt SequenceResult :=
  if wroteCreator = true ∨ isCreator member.operation = false then (store, .ok result)
  else
    andThen (store.atomic fault fun persisted ↦ do
        let fact ← turnFact member.operation result
        let recorded ← writeFact persisted state.id index fact
        pure (recorded, ())) fun after _ ↦ (after, .ok result)

/-- The disposition of one member at its turn, and whether its execution recorded the creator. -/
def memberTurn (faults : ℕ → Fault) (clock : Clock) (evaluators : Evaluators)
    (state : SequenceState) (index : ℕ) (member : SequenceMember)
    (references : Option ReferenceBindings) : TransactionStore × Attempt (SequenceResult × Bool) :=
  let owner := state.owned.lookup index
  match references, owner with
  | none, none => (store, .ok (.transient, false))
  | none, some owner =>
    match store.claim owner with
    | none => (store, .thrown "lost transaction owner")
    | some claim =>
      andThen (store.atomic (faults 0) fun persisted ↦
          .ok (persisted.deleteOwned claim.principal claim.key claim.owner, ()))
        fun after _ ↦ (after.dropClaim owner, .ok (.transient, false))
  | some references, some owner =>
    match store.claim owner with
    | none => (store, .thrown "lost transaction owner")
    | some claim =>
      andThen (store.resolveMember config (faults 0) state member claim references) fun after _ ↦
        andThen (after.executeClaim config faults 1 clock evaluators owner) fun after receipt ↦
          (after, .ok (.receipt receipt, isCreator member.operation))
  | some references, none =>
    andThen (store.admitMember config (faults 0) clock state index member references)
      fun after admission ↦
        match admission with
        | .owned claim =>
          andThen (after.executeClaim config faults 1 clock evaluators claim.owner)
            fun after receipt ↦ (after, .ok (.receipt receipt, isCreator member.operation))
        | .existing receipt => (after, .ok (.receipt receipt, false))
        | .conflict => (after, .ok (.conflict, false))
        | _ => (after, .thrown "sequence compared unresolved foreign owner")

/-- Advance past the member; the last turn forgets the creator facts. -/
def advanceSequence (fault : Fault) (id : String) (result : SequenceResult) :
    TransactionStore × Attempt SequenceResult :=
  match store.sequenceOf id with
  | none => (store, .thrown "foreign transaction sequence admission")
  | some state =>
    let advanced := store.setSequence { state with next := state.next + 1 }
    if state.next + 1 = state.members.length then
      let finished := { advanced with
        activeSequences := advanced.activeSequences.filter (· != id) }
      andThen (finished.atomic fault fun persisted ↦
          .ok ({ persisted with creatorFacts := persisted.creatorFacts.filter fun row ↦
            row.attempt != id }, ())) fun after _ ↦ (after, .ok result)
    else (advanced, .ok result)

def sequenceTurn (faults : ℕ → Fault) (clock : Clock) (evaluators : Evaluators)
    (state : SequenceState) (member : SequenceMember) :
    TransactionStore × Attempt SequenceResult :=
  match store.memberReferences config state member with
  | .error message => (store, .thrown message)
  | .ok references =>
    andThen (store.memberTurn config faults clock evaluators state state.next member references)
      fun after turn ↦
        andThen (after.recordTurn (faults 3) state state.next member turn.2 turn.1)
          fun after result ↦ after.advanceSequence (faults 4) state.id result

/-- One turn of a sequence. A turn that throws cancels the sequence. -/
def nextSequence (faults : ℕ → Fault) (clock : Clock) (evaluators : Evaluators) (id : String) :
    TransactionStore × Attempt SequenceResult :=
  match store.sequenceOf id with
  | none => (store, .thrown "foreign transaction sequence admission")
  | some state =>
    if state.cancelled then (store, .thrown "transaction sequence cancelled, reentrant or complete")
    else
      match state.members[state.next]? with
      | none => (store, .thrown "transaction sequence cancelled, reentrant or complete")
      | some member =>
        let turn := store.sequenceTurn config faults clock evaluators state member
        match turn.2 with
        | .thrown message =>
          let cancelled := turn.1.cancelSequence (faults 5) id
          match cancelled.2 with
          | .ok _ => (cancelled.1, .thrown message)
          | _ => ({ cancelled.1 with stopped := true }, .fenced)
        | _ => turn

/-- Maintenance; a background failure stops the store. -/
def maintain (faults : ℕ → Fault) (clock : Clock) (background : Bool) :
    TransactionStore × Attempt Unit :=
  let swept := store.atomic (faults 0) fun persisted ↦ do
    let now ← instant clock 0
    let persisted ← persisted.sweep now
    pure (persisted, ())
  match swept.2 with
  | .ok _ => swept
  | _ => ({ swept.1 with stopped := swept.1.stopped || background }, swept.2)

/-- The receipt of a principal under its URL, when it belongs to this epoch. -/
def disclosedReceipt (principal id : String) : Option ReceiptRow :=
  (store.persisted.receipts.find? fun row ↦
    row.principal == principal && row.receipt.core.id == id).filter fun row ↦
      row.receipt.core.scopeEpoch == store.persisted.epoch

/-- Read a receipt; reading applies its expiry. -/
def readReceipt (faults : ℕ → Fault) (clock : Clock) (principal id : String) :
    TransactionStore × Attempt (Option Receipt) :=
  match store.disclosedReceipt principal id with
  | none => (store, .ok none)
  | some row =>
    store.atomic (faults 0) fun persisted ↦ do
      let now ← instant clock 0
      let (persisted, remaining) ← persisted.expireKey row.principal row.key now
      pure (persisted, remaining.map ReceiptRow.receipt)

/-- Replace the initial policy by the empty one, while nothing is pending. -/
def replaceAuthorizationPolicy (faults : ℕ → Fault) : TransactionStore × Attempt Unit :=
  if store.activeSequences ≠ [] ∨ store.persisted.receipts.any (fun row ↦ row.owner.isSome) = true
    then (store, .thrown "temporarily-unavailable")
  else if store.authorization.canMutate = false then (store, .ok ())
  else
    let next := emptyTransactionAuthorization (config.uuid store.turn 0)
    andThen (store.atomic (faults 0) fun persisted ↦
        .ok ({ persisted with authorizationPolicy := next }, ())) fun after _ ↦
      ({ after with authorization := next }, .ok ())

/-- Open the durable part again: pending receipts and creator facts are gone, and expiry runs. When
the opening fails, there is no handle. -/
def reopen (fault : Fault) (clock : Clock) : TransactionStore :=
  let closed : TransactionStore :=
    { store with claims := [], sequences := [], activeSequences := [], mutationPause := none
                 authorization := store.persisted.authorizationPolicy, stopped := false }
  let opened := closed.atomic fault fun persisted ↦ do
    let now ← instant clock 0
    let retracted : Persisted := { persisted with
      receipts := persisted.receipts.filter fun row ↦ row.owner == none
      creatorFacts := [] }
    let swept ← retracted.sweep now
    pure (swept, ())
  match opened.2 with
  | .ok _ => opened.1
  | _ => { opened.1 with stopped := true }

end TransactionStore

/-- One executed key: whether its transaction completed or failed, and what it emitted. -/
structure Execution where
  principal : String
  key : String
  transaction : String
  completed : Bool
  events : List TransactionEvent
  deriving DecidableEq

def Execution.name (execution : Execution) : String × String :=
  (execution.principal, execution.key)

def Disposition.isCompleted : Disposition → Bool
  | .completed _ _ _ _ => true
  | .expired _ _ _ => true
  | _ => false

inductive TransactionCall where
  | admitRequest (principal key : String) (batch : PreparedTransaction)
      (controls : TransactionReceivingControls)
  | execute (owner : String) (evaluators : Evaluators)
  | retract (owner : String)
  | admitSequence (principal : String) (members : List SequenceMember)
  | nextSequence (id : String) (evaluators : Evaluators)
  | cancelSequence (id : String)
  | maintain (background : Bool)
  | readReceipt (principal id : String)
  | replaceAuthorizationPolicy
  | pauseMutationAdmission
  | resumeMutationAdmission (token : ℕ)
  | close
  | reopen

namespace TransactionStore

variable (config : StoreConfiguration)

def created (epoch : String) : TransactionStore :=
  { persisted :=
      { epoch, authorizationPolicy := initialTransactionAuthorization, position := 0
        tables := { resources := ∅, identities := ∅, aliases := ∅ }
        receipts := [], receiptPages := [], creatorFacts := [], groups := [] }
    authorization := initialTransactionAuthorization
    claims := [], sequences := [], activeSequences := [], mutationPause := none, stopped := false
    turn := 0 }

/-- The effect of a call on a handle that is open. -/
def perform (store : TransactionStore) (faults : ℕ → Fault) (clock : Clock) :
    TransactionCall → TransactionStore
  | .admitRequest principal key batch controls =>
    (store.admitRequest config faults clock principal key batch controls).1
  | .execute owner evaluators => (store.executeClaim config faults 0 clock evaluators owner).1
  | .retract owner => (store.retract faults owner).1
  | .admitSequence principal members =>
    (store.admitSequence config faults clock principal members).1
  | .nextSequence id evaluators => (store.nextSequence config faults clock evaluators id).1
  | .cancelSequence id => (store.cancelSequence (faults 0) id).1
  | .maintain background => (store.maintain faults clock background).1
  | .readReceipt principal id => (store.readReceipt faults clock principal id).1
  | .replaceAuthorizationPolicy => (store.replaceAuthorizationPolicy config faults).1
  | .pauseMutationAdmission =>
    if store.mutationPause = none then { store with mutationPause := some store.turn } else store
  | .resumeMutationAdmission token =>
    if store.mutationPause = some token then { store with mutationPause := none } else store
  | .close => { store with stopped := true }
  | .reopen => store.reopen (faults 0) clock

/-- One call. A stopped handle only opens again. -/
def call (store : TransactionStore) (faults : ℕ → Fault) (clock : Clock)
    (request : TransactionCall) : TransactionStore :=
  let entered :=
    match request with
    | .reopen => store.perform config faults clock request
    | _ => if store.stopped then store else store.perform config faults clock request
  { entered with turn := store.turn + 1 }

/-- The execution of a claim that one transaction makes durable. -/
def claimExecutions (store : TransactionStore) (fault : Fault) (clock : Clock)
    (evaluators : Evaluators) (owner : String) : List Execution :=
  match store.claim owner with
  | none => []
  | some claim =>
    match fault, executeTransaction config evaluators clock store.turn claim store.persisted,
      evaluateClaim config evaluators clock claim store.persisted with
    | .none, .ok (_, receipt), .ok (_, evaluation)
    | .commit true, .ok (_, receipt), .ok (_, evaluation) =>
      [{ principal := claim.principal
         key := claim.key
         transaction := receipt.core.transaction
         completed := receipt.disposition.isCompleted
         events := evaluation.events }]
    | _, _, _ => []

/-- The execution at the turn of a sequence member. -/
def turnExecutions (store : TransactionStore) (faults : ℕ → Fault) (clock : Clock)
    (evaluators : Evaluators) (state : SequenceState) (member : SequenceMember) :
    List Execution :=
  match store.memberReferences config state member, state.owned.lookup state.next with
  | .ok (some references), some owner =>
    match store.claim owner with
    | none => []
    | some claim =>
      let resolved := store.resolveMember config (faults 0) state member claim references
      match resolved.2 with
      | .ok _ => resolved.1.claimExecutions config (faults 1) clock evaluators owner
      | _ => []
  | .ok (some references), none =>
    let admitted := store.admitMember config (faults 0) clock state state.next member references
    match admitted.2 with
    | .ok (.owned claim) =>
      admitted.1.claimExecutions config (faults 1) clock evaluators claim.owner
    | _ => []
  | _, _ => []

/-- The executions that a call makes durable. -/
def executions (store : TransactionStore) (faults : ℕ → Fault) (clock : Clock) :
    TransactionCall → List Execution
  | .execute owner evaluators =>
    if store.stopped then [] else store.claimExecutions config (faults 0) clock evaluators owner
  | .nextSequence id evaluators =>
    if store.stopped then []
    else
      match store.sequenceOf id with
      | none => []
      | some state =>
        if state.cancelled then []
        else
          match state.members[state.next]? with
          | none => []
          | some member => store.turnExecutions config faults clock evaluators state member
  | _ => []

/-- The store after some calls, from another state of it, with the executions between them. -/
inductive Run (start : TransactionStore) : List Execution → TransactionStore → Prop where
  | refl : Run start [] start
  | called {store : TransactionStore} {history : List Execution} (faults : ℕ → Fault)
      (clock : Clock) (request : TransactionCall) (run : Run start history store) :
      Run start (history ++ store.executions config faults clock request)
        (store.call config faults clock request)

/-- A state that a new store can reach, with everything executed on the way. -/
def Reachable (history : List Execution) (store : TransactionStore) : Prop :=
  ∃ epoch, Run config (created epoch) history store

end TransactionStore

end Bdp.Transaction
