import Bdp.Pagination.Engine

/-!
# The accounts of pagination

The authority with the accounts that it keeps by increments: the bytes, nodes and cursor positions
that its snapshots retain, and the index from a cursor to its snapshot. Every call changes the
accounts on the paths on which the source does: admission, rollback, continuation, expiry, another
epoch, withdrawal and close.
-/

namespace Bdp.Pagination

/-- What the index binds a cursor to: the snapshot by its serial, and the offset. -/
structure CursorBinding where
  token : List Char
  serial : ℕ
  offset : ℕ

/-- The authority with its accounts. -/
structure Ledger (α : Type) extends Engine α where
  cursorIndex : List CursorBinding
  retainedSnapshotBytes : ℤ
  retainedSnapshotNodes : ℤ
  retainedCursorPositions : ℤ

def Ledger.created (α : Type) : Ledger α :=
  { Engine.created α with
    cursorIndex := [], retainedSnapshotBytes := 0, retainedSnapshotNodes := 0
    retainedCursorPositions := 0 }

/-- A first page with the weight of its source context, when that is a record of texts. -/
structure ContextualInput (α : Type) extends ReadFirstPageInput α where
  context : Option (ℕ × ℕ)

variable {α : Type} (ports : Ports α)

namespace Ledger

variable (ledger : Ledger α)

section Release

/-- The index without a cursor, if it is bound to the snapshot. -/
def unbind (serial : ℕ) (index : List CursorBinding) (token : List Char) : List CursorBinding :=
  match index.find? fun binding ↦ binding.token == token with
  | some binding =>
    if binding.serial = serial then index.filter fun binding ↦ !(binding.token == token) else index
  | none => index

/-- Release a snapshot that is live, with its accounts and its cursors. -/
def release (serial : ℕ) : Ledger α :=
  match ledger.snapshots.find? fun snapshot ↦ snapshot.serial == serial with
  | none => ledger
  | some snapshot =>
    { ledger with
      snapshots := ledger.snapshots.filter fun snapshot ↦ snapshot.serial != serial
      retainedSnapshotBytes := ledger.retainedSnapshotBytes - snapshot.retainedBytes
      retainedSnapshotNodes := ledger.retainedSnapshotNodes - snapshot.retainedNodes
      retainedCursorPositions := ledger.retainedCursorPositions - snapshot.reservedCursorPositions
      cursorIndex := (snapshot.cursors.map Prod.snd).foldl (unbind serial) ledger.cursorIndex }

/-- The loop over the snapshots up to the first one that has not expired. -/
def cleanupLoop (now : ℕ) : List (Snapshot α) → Ledger α → Ledger α
  | [], ledger => ledger
  | snapshot :: rest, ledger =>
    if now < snapshot.expiresAt then ledger
    else cleanupLoop now rest (ledger.release snapshot.serial)

def cleanupAt (now : ℕ) : Ledger α := cleanupLoop now ledger.snapshots ledger

def releaseAll : Ledger α :=
  ledger.snapshots.foldl (fun ledger snapshot ↦ ledger.release snapshot.serial) ledger

end Release

section Clock

def observe (now : ℕ) : Ledger α := { ledger with lastClockValue := now }

/-- Set the timer of the idle cleanup, which asks the clock when a snapshot is left. -/
def scheduleIdleCleanup (timer : Bool) (clock : Option ℕ) :
    Except ReadPaginationError Unit × Ledger α :=
  if timer = false ∨ ledger.closed = true ∨ ledger.snapshots = [] then (.ok (), ledger)
  else
    match clock with
    | none => (.error clockError, ledger)
    | some value => (.ok (), ledger.observe (max ledger.lastClockValue value))

end Clock

section Cursors

/-- The snapshot and the offset of a cursor: from its text where pages may be resized, otherwise
from the index. -/
def lookup (token : List Char) : Option (Snapshot α × ℕ) :=
  if ports.options.resizable then ledger.toEngine.lookup ports token
  else do
    let binding ← ledger.cursorIndex.find? fun binding ↦ binding.token == token
    let snapshot ← ledger.snapshots.find? fun snapshot ↦ snapshot.serial == binding.serial
    return (snapshot, binding.offset)

def generateToken : ℕ → ℕ → Except ReadPaginationError (List Char)
  | 0, _ => .error (localError .tokenGenerationFailed
      "opaque cursor generation did not produce a bounded unique token")
  | left + 1, attempt =>
    match ports.entropy ledger.turn attempt with
    | none => .error (localError .tokenGenerationFailed "opaque cursor generation failed")
    | some candidate =>
      if isOpaqueToken ports candidate = true ∧
          ledger.cursorIndex.all (fun binding ↦ !(binding.token == candidate)) = true then
        .ok candidate
      else generateToken left (attempt + 1)

/-- Bind a new token to an offset, in the snapshot and in the index. -/
def bind (serial offset : ℕ) (token : List Char) : Ledger α :=
  { ledger with
    snapshots := ledger.snapshots.map fun snapshot ↦
      if snapshot.serial = serial then
        { snapshot with cursors := snapshot.cursors ++ [(offset, token)] }
      else snapshot
    cursorIndex := ledger.cursorIndex ++ [⟨token, serial, offset⟩] }

def cursorFor (snapshot : Snapshot α) (offset : ℕ) :
    Except ReadPaginationError (List Char) × Ledger α :=
  match snapshot.cursorKey with
  | some candidate => (.ok (resizedCursor ports candidate snapshot.serial offset), ledger)
  | none =>
    match snapshot.cursors.find? fun cursor ↦ cursor.1 == offset with
    | some cursor => (.ok cursor.2, ledger)
    | none =>
      match ledger.generateToken ports ports.options.tokenGenerationAttempts 0 with
      | .error error => (.error error, ledger)
      | .ok token => (.ok token, ledger.bind snapshot.serial offset token)

def pageAt (snapshot : Snapshot α) (offset limit : ℕ) :
    Except ReadPaginationError (ReadPage α) × Ledger α :=
  let items := (snapshot.items.drop offset).take limit
  let following := offset + items.length
  if following < snapshot.items.length then
    match ledger.cursorFor ports snapshot following with
    | (.error error, ledger) => (.error error, ledger)
    | (.ok cursor, ledger) =>
      (.ok ⟨items, some ⟨snapshot.continuationUrl, cursor,
        if ports.options.resizable then some limit else none⟩⟩, ledger)
  else (.ok ⟨items, none⟩, ledger)

end Cursors

section Admission

def enterEpoch (scopeEpoch : String) : Ledger α :=
  let released := if ∀ active ∈ ledger.activeScopeEpoch, active = scopeEpoch then ledger
    else ledger.releaseAll
  { released with activeScopeEpoch := some scopeEpoch }

/-- The snapshot of a first page that does not fit its limit, checked against the accounts. -/
def admitSnapshot (now limit : ℕ) (url : String) (input : ContextualInput α) :
    Except ReadPaginationError (Option (Snapshot α)) := do
  let options := ports.options
  let shared := decide (limit < input.items.length) && !options.resizable
  let byteCapacity := (options.retainedSnapshotByteCapacity : ℤ) -
    if shared then ledger.retainedSnapshotBytes else 0
  let nodeCapacity := (options.retainedSnapshotNodeCapacity : ℤ) -
    if shared then ledger.retainedSnapshotNodes else 0
  let exceeded := if options.resizable then localError .snapshotLimitExceeded
      "this selected snapshot exceeds the configured byte/node bound"
    else localError .capacityExceeded "pagination snapshot capacity is exhausted"
  let (contextBytes, contextNodes) ← require input.context
    (localError .invalidSnapshot "source context must be a string record")
  check ((contextBytes : ℤ) ≤ byteCapacity ∧ (contextNodes : ℤ) ≤ nodeCapacity) exceeded
  let (bytes, nodes) ← require (ports.weigh input.items)
    (localError .invalidSnapshot "pagination items must be JSON data")
  check ((bytes : ℤ) ≤ byteCapacity - contextBytes ∧ (nodes : ℤ) ≤ nodeCapacity - contextNodes)
    exceeded
  if input.items.length ≤ limit then pure none
  else do
    let reserved := if options.resizable then 0 else (input.items.length + limit - 1) / limit - 1
    check (reserved ≤ options.maxRetainedCursorPositionsPerSnapshot)
      (localError .capacityExceeded
        "this pagination snapshot exceeds the per-snapshot retained-state limit")
    check (options.resizable = true →
      ledger.retainedSnapshotBytes + (bytes + contextBytes : ℕ) ≤
          options.retainedSnapshotByteCapacity ∧
        ledger.retainedSnapshotNodes + (nodes + contextNodes : ℕ) ≤
          options.retainedSnapshotNodeCapacity)
      (localError .capacityExceeded "active snapshots exhaust the retained byte/node capacity")
    check ((ledger.snapshots.length : ℤ) + ledger.retainedCursorPositions + 1 + reserved ≤
      options.retainedStateCapacity)
      (localError .capacityExceeded "pagination retained-state capacity is exhausted")
    let cursorKey ← if options.resizable then
        (freshResizeIdentity ports ledger.toEngine options.tokenGenerationAttempts 0).map some
      else .ok none
    pure (some
      { serial := ledger.admitted + 1, cursorKey, items := input.items, limit
        authorizationView := input.authorizationView, scopeEpoch := input.scopeEpoch
        projection := input.projection, continuationUrl := url
        expiresAt := now + options.cursorTtlMs, retainedBytes := bytes + contextBytes
        retainedNodes := nodes + contextNodes, reservedCursorPositions := reserved, cursors := [] })

/-- Count a snapshot in before its first cursor is drawn. -/
def register (snapshot : Snapshot α) : Ledger α :=
  { ledger with
    snapshots := ledger.snapshots ++ [snapshot]
    admitted := ledger.admitted + 1
    retainedSnapshotBytes := ledger.retainedSnapshotBytes + snapshot.retainedBytes
    retainedSnapshotNodes := ledger.retainedSnapshotNodes + snapshot.retainedNodes
    retainedCursorPositions := ledger.retainedCursorPositions + snapshot.reservedCursorPositions }

/-- A failure after a release; the timer may fail first. -/
def refuse (error : ReadPaginationError) (timer : Bool) (clock : Option ℕ) :
    Except ReadPaginationError (ReadPage α) × Ledger α :=
  match ledger.scheduleIdleCleanup timer clock with
  | (.ok (), ledger) => (.error error, ledger)
  | (.error failure, ledger) => (.error failure, ledger)

/-- Retain a snapshot and cut its first page; a failure rolls it back. -/
def openSnapshot (now limit : ℕ) (url : String) (input : ContextualInput α) (timer : Bool)
    (clock again : Option ℕ) : Except ReadPaginationError (ReadPage α) × Ledger α :=
  match ledger.admitSnapshot ports now limit url input with
  | .error error => (.error error, ledger)
  | .ok none => (.ok ⟨input.items, none⟩, ledger)
  | .ok (some snapshot) =>
    match (ledger.register snapshot).pageAt ports snapshot 0 limit with
    | (.error error, registered) =>
      (registered.release snapshot.serial).refuse error timer again
    | (.ok page, registered) =>
      match registered.scheduleIdleCleanup timer clock with
      | (.ok (), registered) => (.ok page, registered)
      | (.error error, registered) =>
        (registered.release snapshot.serial).refuse error timer again

end Admission

section Calls

/-- A call asks for an open authority and a clock. -/
def entered (clock : Option ℕ)
    (body : ℕ → Ledger α → Except ReadPaginationError (ReadPage α) × Ledger α) :
    Except ReadPaginationError (ReadPage α) × Ledger α :=
  if ledger.closed then (.error closedError, ledger)
  else
    match clock with
    | none => (.error clockError, ledger)
    | some value =>
      let now := max ledger.lastClockValue value
      body now (ledger.observe now)

def firstPage (timer : Bool) (clock later again : Option ℕ) (input : ContextualInput α) :
    Except ReadPaginationError (ReadPage α) × Ledger α :=
  ledger.entered clock fun now ledger ↦
    let ledger := ledger.cleanupAt now
    match checkFirst ports input.toReadFirstPageInput with
    | .error error => (.error error, ledger)
    | .ok (limit, url) =>
      (ledger.enterEpoch input.scopeEpoch).openSnapshot ports now limit url input timer later again

/-- The checks of who continues a snapshot, and the limit of the page. -/
def checkReader (snapshot : Snapshot α) (input : ReadContinuationInput) :
    Except ReadPaginationError ℕ := do
  let authorizationView ← identityOf input.authorizationView
  check (authorizationView = snapshot.authorizationView)
    (localError .foreignView "the pagination cursor belongs to another view")
  let projection ← identityOf input.projection
  check (projection = snapshot.projection)
    (localError .foreignProjection "the pagination cursor belongs to another projection")
  check (ports.options.resizable = true ∨ input.limit = none)
    (localError .invalidInput "this continuation does not permit resizing")
  continuationLimit ports snapshot input.limit

def serve (snapshot : Snapshot α) (offset : ℕ) (input : ReadContinuationInput) (timer : Bool)
    (clock : Option ℕ) : Except ReadPaginationError (ReadPage α) × Ledger α :=
  match checkReader ports snapshot input with
  | .error error => (.error error, ledger)
  | .ok limit =>
    match ledger.pageAt ports snapshot offset limit with
    | (.error error, ledger) => (.error error, ledger)
    | (.ok page, ledger) =>
      match ledger.scheduleIdleCleanup timer clock with
      | (.ok (), ledger) => (.ok page, ledger)
      | (.error error, ledger) => (.error error, ledger)

def continuePage (timer : Bool) (clock later : Option ℕ) (input : ReadContinuationInput) :
    Except ReadPaginationError (ReadPage α) × Ledger α :=
  ledger.entered clock fun now ledger ↦
    match (ledger.lookup ports input.token).filter
      fun direct ↦ decide (direct.1.expiresAt ≤ now) with
    | some direct =>
      (ledger.release direct.1.serial).refuse
        ⟨.cursorExpired, "the pagination cursor expired", some .expired⟩ timer later
    | none =>
      let ledger := ledger.cleanupAt now
      match ledger.lookup ports input.token with
      | none =>
        (.error ⟨.cursorExpired, "the pagination cursor is unavailable", some .unknown⟩, ledger)
      | some (snapshot, offset) =>
        match identityOf input.scopeEpoch with
        | .error error => (.error error, ledger)
        | .ok scopeEpoch =>
          if scopeEpoch ≠ snapshot.scopeEpoch then
            (ledger.release snapshot.serial).refuse ⟨.cursorExpired,
              "the pagination cursor belongs to another Scope epoch", some .epochChanged⟩ timer
              later
          else ledger.serve ports snapshot offset input timer later

def cleanupExpired (timer : Bool) (clock later : Option ℕ) : Ledger α :=
  if ledger.closed then ledger
  else
    match clock with
    | none => ledger
    | some value =>
      let now := max ledger.lastClockValue value
      (((ledger.observe now).cleanupAt now).scheduleIdleCleanup timer later).2

def close : Ledger α :=
  if ledger.closed then ledger
  else Ledger.releaseAll { ledger with activeScopeEpoch := none, closed := true }

/-- Withdraw the first page of a resizable snapshot. -/
def releaseUnissuedPage (serial : ℕ) (timer : Bool) (clock : Option ℕ) : Ledger α :=
  if ports.options.resizable then
    ((ledger.release serial).scheduleIdleCleanup timer clock).2
  else ledger

end Calls

end Ledger

/-- What may happen to the authority; `later` is what the clock tells the timer, and `again` when a
first page is rolled back. -/
inductive LedgerCall (α : Type) where
  | firstPage (clock later again : Option ℕ) (input : ContextualInput α)
  | continuePage (clock later : Option ℕ) (input : ReadContinuationInput)
  | cleanupExpired (clock later : Option ℕ)
  | releaseUnissuedPage (serial : ℕ) (later : Option ℕ)
  | close

/-- The authority after a call; `timer` says how it cleans up when idle. -/
def Ledger.call (timer : Bool) (ledger : Ledger α) (call : LedgerCall α) : Ledger α :=
  let after : Ledger α :=
    match call with
    | .firstPage clock later again input =>
      (ledger.firstPage ports timer clock later again input).2
    | .continuePage clock later input => (ledger.continuePage ports timer clock later input).2
    | .cleanupExpired clock later => ledger.cleanupExpired timer clock later
    | .releaseUnissuedPage serial later => ledger.releaseUnissuedPage ports serial timer later
    | .close => ledger.close
  { after with turn := ledger.turn + 1 }

/-- The states that calls lead to. -/
inductive Ledger.Reachable (timer : Bool) : Ledger α → Prop
  | created : Reachable timer (Ledger.created α)
  | call {ledger : Ledger α} (before : Reachable timer ledger) (next : LedgerCall α) :
      Reachable timer (ledger.call ports timer next)

end Bdp.Pagination
