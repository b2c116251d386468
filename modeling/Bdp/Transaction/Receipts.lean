import Bdp.Transaction.Batch

/-!
# Receipts

The durable part of a transaction store: the receipt of each key with its pending owner, the groups,
the scope position and the staged tables. The functions of this file run inside one database
transaction each; an error rolls the whole transaction back.
-/

namespace Bdp.Transaction

def day : ℤ := 86400000

structure ReceiptCore where
  id : String
  idempotencyKey : String
  scopeEpoch : String
  authorizationView : String
  transaction : String
  deriving DecidableEq, Repr

structure Allocation where
  operationIndex : ℕ
  operationName : Option String
  id : String
  type : String
  deriving DecidableEq, Repr

inductive Disposition where
  | pending
  | completed (requiredPosition : ℕ) (effectPosition : Option ℕ) (results : List ResultEntry)
      (expiresAt : ℤ)
  /-- A completed receipt whose detail has expired. -/
  | expired (requiredPosition : ℕ) (effectPosition : Option ℕ) (allocated : List Allocation)
  | failed (requiredPosition : ℕ) (problem : BatchProblem) (expiresAt : ℤ)
  deriving DecidableEq

structure Receipt where
  core : ReceiptCore
  disposition : Disposition
  deriving DecidableEq

/-- A pending template of a sequence member that waits for its creators. -/
structure DependencyTemplate where
  attempt : String
  text : String
  deriving DecidableEq, Repr

structure ReceiptRow where
  principal : String
  key : String
  identity : String
  witnesses : String
  owner : Option String
  receipt : Receipt
  dependency : Option DependencyTemplate
  deriving DecidableEq

namespace ReceiptRow

def name (row : ReceiptRow) : String × String := (row.principal, row.key)

def named (row : ReceiptRow) (principal key : String) : Bool :=
  row.principal == principal && row.key == key

def ownedBy (row : ReceiptRow) (principal key owner : String) : Bool :=
  row.named principal key && row.owner == some owner

end ReceiptRow

inductive CreatorFact where
  | unbound
  | transient
  | bound (id : String) (resourceKind : ResourceKind)
  deriving DecidableEq, Repr

structure CreatorRow where
  attempt : String
  member : ℕ
  fact : Option CreatorFact
  deriving DecidableEq, Repr

structure ReceiptPagePlan where
  receipt : String
  principal : String
  key : String
  entries : ℕ
  maximum : ℕ
  ranges : List (String × ℕ × ℕ)
  deriving DecidableEq, Repr

structure TransactionAuthorization where
  authorizationView : String
  allVisible : Bool
  canMutate : Bool
  deriving DecidableEq, Repr

def initialTransactionAuthorization : TransactionAuthorization :=
  { authorizationView := INITIAL_TRANSACTION_VIEW, allVisible := true, canMutate := true }

def emptyTransactionAuthorization (view : String) : TransactionAuthorization :=
  { authorizationView := view, allVisible := false, canMutate := false }

/-- What survives the process. -/
structure Persisted where
  epoch : String
  authorizationPolicy : TransactionAuthorization
  position : ℕ
  tables : Tables
  receipts : List ReceiptRow
  receiptPages : List ReceiptPagePlan
  creatorFacts : List CreatorRow
  groups : List GroupRow
  deriving DecidableEq

structure PreparedTransaction where
  text : String
  singleton : Bool
  operations : List BatchOperation
  deriving DecidableEq

/-- Values that the creators of a sequence have bound, by operand field. -/
abbrev ReferenceBindings := List (String × Option String)

inductive Comparison where
  | equal
  | conflict
  | pending
  deriving DecidableEq, Repr

structure SequenceMember where
  key : String
  operation : String
  request : PreparedTransaction
  deferred : Bool
  deriving DecidableEq

/-- What the store is opened with, and what it takes from its collaborators. -/
structure StoreConfiguration extends RecordReader where
  tags : Digest
  /-- The random identifiers of each entry, all different. -/
  uuid : ℕ → ℕ → String
  uuid_injective : ∀ {turn turn' draw draw' : ℕ},
    uuid turn draw = uuid turn' draw' → turn = turn' ∧ draw = draw'
  receiptMaximumItems : ℕ
  receiptMaximumItems_pos : 0 < receiptMaximumItems
  maximumInducedEvents : ℕ
  maximumMatchedResources : ℕ
  eventPageBytes : ℕ
  eventGroupBytes : ℕ
  groupBytes : TransactionGroup → ℕ
  eventBytes : TransactionEvent → ℕ
  envelopeBytes : String → ℕ
  continuationBytes : String → String → ℕ
  selectorCapacity : BatchOperation → Option String
  normalize : PreparedTransaction → (String → Option String) → Option String → ReferenceBindings →
    Except String NormalizedTransaction
  dependencyTemplate : String → SequenceMember → DependencyTemplate
  compareDependencyTemplate : DependencyTemplate → PreparedTransaction →
    (String → Option String) → (ℕ → Option CreatorFact) → Comparison
  /-- No bindings while a creator of the member is transient. -/
  resolveDependencies : DependencyTemplate → (ℕ → CreatorFact) → Option ReferenceBindings
  dependencyMembers : DependencyTemplate → List ℕ

/-- The readings of the authority clock during one entry. -/
abbrev Clock := ℕ → ℤ

def instant (clock : Clock) (reading : ℕ) : Except String ℤ := do
  check (0 ≤ clock reading ∧ clock reading ≤ 8640000000000000 - day) "invalid authority clock"
  pure (clock reading)

section Expiry

def allocation : ResultEntry → Except String (List Allocation)
  | .matched _ _ => .ok []
  | .alias operationIndex outcome =>
    if outcome.outcome = "created" then do
      check (operationIndex = 0) "invalid retained alias creation result"
      pure []
    else .ok []
  | .resource operationIndex operationName outcome =>
    if outcome.outcome = .created then do
      let resource ← require outcome.resource "invalid retained creation result"
      pure [{ operationIndex, operationName, id := resource.id, type := resource.type }]
    else .ok []

/-- The compact receipt keeps the disposition, the positions and the creations. -/
def compactReceipt (core : ReceiptCore) (requiredPosition : ℕ) (effectPosition : Option ℕ)
    (results : List ResultEntry) : Except String Receipt := do
  let allocated ← results.mapM allocation
  pure { core, disposition := .expired requiredPosition effectPosition allocated.flatten }

theorem compactReceipt_eq_ok {core : ReceiptCore} {requiredPosition : ℕ} {effectPosition : Option ℕ}
    {results : List ResultEntry} {receipt : Receipt}
    (h : compactReceipt core requiredPosition effectPosition results = .ok receipt) : ∃ allocated,
      receipt = { core, disposition := .expired requiredPosition effectPosition allocated } := by
  unfold compactReceipt at h
  rw [Except.bind_eq_ok] at h
  obtain ⟨_, -, h⟩ := h
  cases h
  exact ⟨_, rfl⟩

inductive ExpiryChange where
  | completedExpired
  | failedForgotten
  deriving DecidableEq, Repr

/-- What becomes of a stored row at an instant: the row that remains, and what changed. -/
def expireRow (row : ReceiptRow) (now : ℤ) :
    Except String (Option ReceiptRow × Option ExpiryChange) :=
  if row.owner ≠ none then .ok (some row, none)
  else
    match row.receipt.disposition with
    | .pending => .error "invalid terminal receipt retention state"
    | .expired _ _ _ => .ok (some row, none)
    | .failed _ _ expiresAt =>
      if now ≤ expiresAt then .ok (some row, none) else .ok (none, some .failedForgotten)
    | .completed requiredPosition effectPosition results expiresAt =>
      if now ≤ expiresAt then .ok (some row, none)
      else do
        let receipt ← compactReceipt row.receipt.core requiredPosition effectPosition results
        pure (some { row with receipt }, some .completedExpired)

end Expiry

namespace Persisted

variable (config : StoreConfiguration) (persisted : Persisted)

def row (principal key : String) : Option ReceiptRow :=
  persisted.receipts.find? fun row ↦ row.named principal key

def resolveAlias (locator : String) : Option String :=
  (stripScope (config.scope ++ "alias/") locator).bind fun path ↦
    persisted.tables.aliases[path]?.map fun target ↦ config.scope ++ target

/-- Delete the pending row that an owner holds. -/
def deleteOwned (principal key owner : String) : Persisted :=
  { persisted with
    receipts := persisted.receipts.filter fun row ↦ !row.ownedBy principal key owner }

/-- Apply the expiry of one key: forget it, compact it, or keep it. -/
def expireKey (principal key : String) (now : ℤ) : Except String (Persisted × Option ReceiptRow) :=
  match persisted.row principal key with
  | none => .ok (persisted, none)
  | some row => do
    let (remaining, change) ← expireRow row now
    match change with
    | none => pure (persisted, remaining)
    | some _ => pure ({ persisted with
        receipts := persisted.receipts.filterMap fun other ↦
          if other.named principal key ∧ other.owner = none then remaining else some other },
        remaining)

/-- The row of a key with its expiry applied; an unknown key needs no clock. -/
def currentRow (principal key : String) (now : Except String ℤ) :
    Except String (Persisted × Option ReceiptRow) :=
  match persisted.row principal key with
  | none => .ok (persisted, none)
  | some _ => do
    let now ← now
    persisted.expireKey principal key now

def sweep (now : ℤ) : Except String Persisted :=
  persisted.receipts.foldlM (fun persisted row ↦
    if row.owner = none then (persisted.expireKey row.principal row.key now).map Prod.fst
    else .ok persisted) persisted

end Persisted

/-- An owner's right to execute its pending row. -/
structure Claim where
  owner : String
  principal : String
  key : String
  receipt : Receipt
  normalized : Option NormalizedTransaction
  creator : Option (String × ℕ × String)
  deriving DecidableEq

inductive TransactionAdmission where
  | owned (claim : Claim)
  | existing (receipt : Receipt)
  | conflict
  | comparisonPending
  | operationLimit
  | selectorLimit (limit : String) (operationIndex : ℕ)
  | notAcceptable
  deriving DecidableEq

structure TransactionReceivingControls where
  acceptsJson : Bool
  maximumOperations : ℕ
  deriving DecidableEq, Repr

section Admission

variable (config : StoreConfiguration)

/-- The refusals that only an unknown key meets. -/
def freshRefusal (batch : PreparedTransaction) (controls : TransactionReceivingControls) :
    Option TransactionAdmission :=
  if controls.maximumOperations < batch.operations.length then some .operationLimit
  else
    match batch.operations.zipIdx.findSome? fun entry ↦
        (config.selectorCapacity entry.1).map fun limit ↦ (limit, entry.2) with
    | some (limit, index) => some (.selectorLimit limit index)
    | none => if controls.acceptsJson then none else some .notAcceptable

/-- Compare a request with what its key already holds. -/
def comparePrior (persisted : Persisted) (batch : PreparedTransaction) (prior : ReceiptRow)
    (references : ReferenceBindings) : Except String TransactionAdmission :=
  match prior.dependency with
  | some template => do
    let fact (index : ℕ) : Option CreatorRow := persisted.creatorFacts.find? fun row ↦
      row.attempt == template.attempt && row.member == index
    check (∀ index ∈ config.dependencyMembers template, (fact index).isSome = true)
      "unresolved receipt lost creator fact"
    match config.compareDependencyTemplate template batch (persisted.resolveAlias config)
      (fun index ↦ (fact index).bind CreatorRow.fact) with
    | .conflict => pure .conflict
    | .equal => pure (.existing prior.receipt)
    | .pending => pure .comparisonPending
  | none => do
    let normalized ← config.normalize batch (persisted.resolveAlias config) (some prior.witnesses)
      references
    if prior.identity ≠ normalized.identity then pure .conflict
    else pure (.existing prior.receipt)

/-- Claim an unknown key: its pending row and the owner's claim. -/
def insertPending (persisted : Persisted) (turn draw : ℕ) (principal key : String)
    (normalized : Option NormalizedTransaction) (template : Option DependencyTemplate) :
    Persisted × Claim :=
  let core : ReceiptCore :=
    { id := config.scope ++ "receipts/" ++ config.uuid turn draw
      idempotencyKey := key
      scopeEpoch := persisted.epoch
      authorizationView := INITIAL_TRANSACTION_VIEW
      transaction := config.uuid turn (draw + 1) }
  let receipt : Receipt := { core, disposition := .pending }
  let owner := config.uuid turn (draw + 2)
  let row : ReceiptRow :=
    { principal, key
      identity := (normalized.map NormalizedTransaction.identity).getD ""
      witnesses := (normalized.map NormalizedTransaction.witnessesJson).getD ""
      owner := some owner
      receipt
      dependency := template }
  ({ persisted with receipts := persisted.receipts ++ [row] },
    { owner, principal, key, receipt, normalized, creator := none })

/-- The normalized request of an unknown key, unless it waits for its creators. -/
def normalizeFresh (persisted : Persisted) (batch : PreparedTransaction)
    (references : ReferenceBindings) (template : Option DependencyTemplate) :
    Except String (Option NormalizedTransaction) :=
  match template with
  | some _ => .ok none
  | none => (config.normalize batch (persisted.resolveAlias config) none references).map some

/-- Admit one key under the caller's transaction. A sequence lets a foreign pending owner win before
any comparison. -/
def admitKey (persisted : Persisted) (now : Except String ℤ) (turn draw : ℕ)
    (principal key : String) (batch : PreparedTransaction) (pendingWins : Bool)
    (references : ReferenceBindings) (template : Option DependencyTemplate)
    (controls : Option TransactionReceivingControls) :
    Except String (Persisted × TransactionAdmission) := do
  let (persisted, prior) ← persisted.currentRow principal key now
  match prior with
  | some prior =>
    if pendingWins = true ∧ prior.owner ≠ none then pure (persisted, .existing prior.receipt)
    else do
      check (prior.dependency ≠ none ∨ template = none)
        "existing key cannot acquire a new unresolved template"
      let compared ← comparePrior config persisted batch prior references
      pure (persisted, compared)
  | none => do
    let normalized ← normalizeFresh config persisted batch references template
    match controls.bind (freshRefusal config batch) with
    | some refusal => pure (persisted, refusal)
    | none =>
      let (persisted, claim) := insertPending config persisted turn draw principal key normalized
        template
      pure (persisted, .owned claim)

end Admission

section Execution

variable (config : StoreConfiguration)

def creatorFact (operation : String) (receipt : Option Receipt) : Except String CreatorFact :=
  match receipt.map Receipt.disposition with
  | none | some (.failed _ _ _) => .ok .unbound
  | some .pending => .ok .transient
  | some (.expired _ _ allocated) => do
    let entry ← require allocated.head? "creator lost allocation"
    pure (.bound entry.id (if operation = "createBead" then .bead else .link))
  | some (.completed _ _ results _) =>
    match results.head? with
    | some (.resource _ _ outcome) => do
      let resource ← require outcome.resource "creator lost allocation"
      pure (.bound resource.id (if operation = "createBead" then .bead else .link))
    | _ => .error "creator lost allocation"

def writeFact (persisted : Persisted) (attempt : String) (member : ℕ) (fact : CreatorFact) :
    Except String Persisted := do
  check (persisted.creatorFacts.any (fun row ↦
      row.attempt == attempt && row.member == member && row.fact == none) = true)
    "creator fact absent or already resolved"
  pure { persisted with creatorFacts := persisted.creatorFacts.map fun row ↦
    if row.attempt = attempt ∧ row.member = member ∧ row.fact = none then
      { row with fact := some fact }
    else row }

/-- The ranges of the pages after the first one. -/
def pageRanges (turn maximum entries : ℕ) : ℕ → ℕ → List (String × ℕ × ℕ)
  | 0, _ => []
  | fuel + 1, start =>
    if start < entries then
      (config.uuid turn (1000 + start), start, min (start + maximum) entries) ::
        pageRanges turn maximum entries fuel (start + maximum)
    else []

def pagePlan (turn : ℕ) (principal key : String) (receipt : Receipt) : List ReceiptPagePlan :=
  match receipt.disposition with
  | .completed _ _ results _ =>
    let ranges := pageRanges config turn config.receiptMaximumItems results.length results.length
      config.receiptMaximumItems
    [{ receipt := receipt.core.id, principal, key, entries := results.length
       maximum := config.receiptMaximumItems, ranges }]
  | _ => []

def evaluationContext (persisted : Persisted) (core : ReceiptCore) (now : ℤ) :
    EvaluationContext :=
  { config.toRecordReader with
    transaction := core.transaction
    position := persisted.position + 1
    now
    maximumInducedEvents := config.maximumInducedEvents
    maximumMatchedResources := config.maximumMatchedResources }

def transactionGroup (persisted : Persisted) (core : ReceiptCore) (state : EvaluationState) :
    TransactionGroup :=
  { scopeEpoch := persisted.epoch
    authorizationView := INITIAL_TRANSACTION_VIEW
    checkpoint := persisted.position + 1
    position := persisted.position + 1
    previousPosition := persisted.position
    transaction := core.transaction
    changes := state.changes
    eventCount := state.events.length
    events := state.events }

/-- The graph effect of a terminal evaluation and the receipt that reports it. A failure rolls the
staged tables back; a transaction without events takes no position. -/
def terminalEffect (persisted : Persisted) (core : ReceiptCore) (expiresAt : ℤ) :
    BatchEvaluation → Persisted × Receipt
  | .failed problem =>
    (persisted, { core, disposition := .failed persisted.position problem expiresAt })
  | .ok state =>
    if state.events = [] then
      ({ persisted with tables := state.tables },
        { core, disposition := .completed persisted.position none state.results expiresAt })
    else
      ({ persisted with
          tables := state.tables
          position := persisted.position + 1
          groups := persisted.groups ++
            [{ position := persisted.position + 1
               body := transactionGroup persisted core state }] },
        { core
          disposition := .completed (persisted.position + 1) (some (persisted.position + 1))
            state.results expiresAt })

/-- Replace the pending receipt of the owner by its terminal one. -/
def finishReceipt (persisted : Persisted) (claim : Claim) (receipt : Receipt) : Persisted :=
  { persisted with receipts := persisted.receipts.map fun row ↦
      if row.ownedBy claim.principal claim.key claim.owner then
        { row with receipt, owner := none }
      else row }

/-- Resolve the fact of the creator that a claim executes, if it executes one. -/
def recordCreator (claim : Claim) (receipt : Receipt) (persisted : Persisted) :
    Except String Persisted :=
  match claim.creator with
  | none => .ok persisted
  | some (attempt, member, operation) => do
    let fact ← creatorFact operation (some receipt)
    writeFact persisted attempt member fact

/-- The owned row of a claim and its evaluation over the staged tables. -/
def evaluateClaim (evaluators : Evaluators) (clock : Clock) (claim : Claim)
    (persisted : Persisted) : Except String (ReceiptRow × BatchEvaluation) := do
  let current ← require (persisted.row claim.principal claim.key) "transaction execution fenced"
  check (current.owner = some claim.owner) "transaction execution fenced"
  let normalized ← require claim.normalized "unresolved execution"
  check (current.dependency = none) "unresolved execution"
  check (persisted.position < maxSafeInteger) "position allocation unsafe"
  let now ← instant clock 0
  let evaluation ← evaluateTransaction evaluators
    (evaluationContext config persisted current.receipt.core now) normalized persisted.tables
  pure (current, evaluation)

/-- The one transaction that executes a claim: effects, position, group and receipt. -/
def executeTransaction (evaluators : Evaluators) (clock : Clock) (turn : ℕ) (claim : Claim)
    (persisted : Persisted) : Except String (Persisted × Receipt) := do
  let (current, evaluation) ← evaluateClaim config evaluators clock claim persisted
  let finished ← instant clock 1
  let effect := terminalEffect persisted current.receipt.core (finished + day) evaluation
  let recorded ← recordCreator claim effect.2 (finishReceipt effect.1 claim effect.2)
  pure ({ recorded with
    receiptPages := recorded.receiptPages ++
      pagePlan config turn claim.principal claim.key effect.2 }, effect.2)

end Execution

end Bdp.Transaction
