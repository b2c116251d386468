import Bdp.Library.Checked
import Bdp.ReadHttp.EntityTags
import Bdp.Transaction.Tokens

/-!
# Read pagination

The in-process authority of snapshots and cursors. A first page freezes its items when they do not
fit one page; cursors name an offset of one snapshot, by a drawn token or, where pages may be
resized, by an authenticated text. A snapshot is released when it expires, when the epoch of the
Scope changes, when its first page is withdrawn, or when the authority is closed.
-/

namespace Bdp.Pagination

open Transaction (isTokenChar)

structure PreparedOptions where
  resizable : Bool
  defaultPageItems : ℕ
  maxPageItems : ℕ
  cursorTtlMs : ℕ
  retainedStateCapacity : ℕ
  maxRetainedCursorPositionsPerSnapshot : ℕ
  retainedSnapshotByteCapacity : ℕ
  retainedSnapshotNodeCapacity : ℕ
  maxOpaqueTokenLength : ℕ
  tokenGenerationAttempts : ℕ
  defaultPageItems_pos : 0 < defaultPageItems
  defaultPageItems_le : defaultPageItems ≤ maxPageItems
  cursorTtlMs_pos : 0 < cursorTtlMs

inductive ReadPaginationErrorCode where
  | configurationError
  | invalidInput
  | invalidLimit
  | invalidSnapshot
  | capacityExceeded
  | snapshotLimitExceeded
  | tokenGenerationFailed
  | cursorExpired
  | foreignView
  | foreignProjection
  deriving DecidableEq, Repr

inductive ReadCursorExpiryReason where
  | unknown
  | expired
  | epochChanged
  deriving DecidableEq, Repr

structure ReadPaginationError where
  code : ReadPaginationErrorCode
  message : String
  cursorReason : Option ReadCursorExpiryReason
  deriving DecidableEq, Repr

def localError (code : ReadPaginationErrorCode) (message : String) : ReadPaginationError :=
  { code, message, cursorReason := none }

/-- What the authority takes from its environment. -/
structure Ports (α : Type) where
  options : PreparedOptions
  /-- The candidate of one attempt in one call; an attempt may fail. -/
  entropy : ℕ → ℕ → Option (List Char)
  entropy_injective : ∀ {turn turn' attempt attempt' candidate},
    entropy turn attempt = some candidate → entropy turn' attempt' = some candidate → turn = turn'
  /-- The masked counter of a resizable snapshot, of six bytes. -/
  identity : ℕ → List Char
  identity_injective : ∀ {sequence sequence'}, sequence < 281474976710656 →
    sequence' < 281474976710656 → identity sequence = identity sequence' → sequence = sequence'
  length_identity : ∀ sequence, (identity sequence).length = 8
  plain_identity : ∀ sequence, ∀ letter ∈ identity sequence, isTokenChar letter = true
  /-- The authentication of an offset, under the key of a candidate and an identity. -/
  tag : List Char → List Char → ℕ → List Char
  length_tag : ∀ candidate identity offset, (tag candidate identity offset).length = 22
  plain_tag : ∀ candidate identity offset, ∀ letter ∈ tag candidate identity offset,
    isTokenChar letter = true
  /-- Bytes and nodes of a copy of the items; none for what is no JSON data. -/
  weigh : List α → Option (ℕ × ℕ)
  /-- The continuation URL of a projection, when it is valid. -/
  validateContinuationUrl : String → Option String

structure Snapshot (α : Type) where
  /-- Which object this is. -/
  serial : ℕ
  /-- The candidate that keys the tags of a resizable snapshot. -/
  cursorKey : Option (List Char)
  items : List α
  limit : ℕ
  authorizationView : String
  scopeEpoch : String
  projection : String
  continuationUrl : String
  expiresAt : ℕ
  retainedBytes : ℕ
  retainedNodes : ℕ
  reservedCursorPositions : ℕ
  /-- One token for each page position of a snapshot with fixed pages. -/
  cursors : List (ℕ × List Char)

/-- The retained snapshots. The second reading of the clock for the idle timer is not part of this
authority but of the `Ledger`, and the law of traversals is stated for this one. -/
structure Engine (α : Type) where
  /-- In the order of their admission. -/
  snapshots : List (Snapshot α)
  activeScopeEpoch : Option String
  closed : Bool
  lastClockValue : ℕ
  /-- How many snapshots were admitted. -/
  admitted : ℕ
  /-- How many calls were made. -/
  turn : ℕ

def Engine.created (α : Type) : Engine α :=
  { snapshots := [], activeScopeEpoch := none, closed := false, lastClockValue := 0, admitted := 0
    turn := 0 }

/-- The URL of the next page: its base, the cursor, and the limit of a resizable page. -/
structure Continuation where
  url : String
  cursor : List Char
  limit : Option ℕ
  deriving DecidableEq

structure ReadPage (α : Type) where
  items : List α
  next : Option Continuation
  deriving DecidableEq

structure ReadFirstPageInput (α : Type) where
  items : List α
  limit : Option ℕ
  authorizationView : String
  scopeEpoch : String
  projection : String
  continuationUrl : String

structure ReadContinuationInput where
  limit : Option ℕ
  token : List Char
  authorizationView : String
  scopeEpoch : String
  projection : String

variable {α : Type} (ports : Ports α)

section Cursors

def digitChar (digit : ℕ) : Char :=
  if digit < 10 then Char.ofNat (48 + digit) else Char.ofNat (87 + digit)

def digitValue (letter : Char) : ℕ :=
  if letter.isDigit then letter.toNat - 48 else letter.toNat - 87

def offsetText (offset : ℕ) : List Char := ((Nat.digits 36 offset).map digitChar).reverse

def readOffset (text : List Char) : ℕ := Nat.ofDigits 36 (text.reverse.map digitValue)

/-- The cursor of an offset of a resizable snapshot. -/
def resizedCursor (candidate : List Char) (sequence offset : ℕ) : List Char :=
  ports.identity sequence ++ ('_' :: (offsetText offset ++ ('_' ::
    ports.tag candidate (ports.identity sequence) offset)))

/-- `[0-9a-z]` -/
def isOffsetChar (letter : Char) : Bool := letter.isDigit || letter.isLower

/-- The parts of `/^([A-Za-z0-9_-]{8})_([0-9a-z]{1,7})_([A-Za-z0-9_-]{22})$/`. -/
def splitResized (token : List Char) : Option (List Char × List Char × List Char) :=
  let identity := token.take 8
  let middle := (token.drop 9).take (token.length - 32)
  let tag := token.drop (token.length - 22)
  if token = identity ++ ('_' :: (middle ++ ('_' :: tag))) ∧ identity.length = 8 ∧
      tag.length = 22 ∧ 1 ≤ middle.length ∧ middle.length ≤ 7 ∧
      (∀ letter ∈ identity ++ tag, isTokenChar letter = true) ∧
      ∀ letter ∈ middle, isOffsetChar letter = true then
    some (identity, middle, tag)
  else none

/-- The offset that a cursor of a resizable snapshot names, when it is authentic. -/
def Snapshot.resizedOffset (snapshot : Snapshot α) (token : List Char) : Option ℕ :=
  match snapshot.cursorKey, splitResized token with
  | some candidate, some (identity, raw, supplied) =>
    let offset := readOffset raw
    if identity = ports.identity snapshot.serial ∧ 0 < offset ∧ offset < snapshot.items.length ∧
        offsetText offset = raw ∧ supplied = ports.tag candidate identity offset then
      some offset
    else none
  | _, _ => none

/-- The offset that a cursor names in a snapshot. -/
def Snapshot.offsetOf (snapshot : Snapshot α) (token : List Char) : Option ℕ :=
  if ports.options.resizable then snapshot.resizedOffset ports token
  else (snapshot.cursors.find? fun cursor ↦ cursor.2 == token).map Prod.fst

/-- The snapshot and the offset that a cursor is bound to. -/
def Engine.lookup (engine : Engine α) (token : List Char) : Option (Snapshot α × ℕ) :=
  engine.snapshots.findSome? fun snapshot ↦
    (snapshot.offsetOf ports token).map fun offset ↦ (snapshot, offset)

def isOpaqueToken (candidate : List Char) : Bool :=
  decide (0 < candidate.length ∧ candidate.length ≤ ports.options.maxOpaqueTokenLength) &&
    candidate.all isTokenChar

/-- A token that no cursor bears, from the candidates of a call. -/
def generateToken (engine : Engine α) : ℕ → ℕ → Except ReadPaginationError (List Char)
  | 0, _ => .error (localError .tokenGenerationFailed
      "opaque cursor generation did not produce a bounded unique token")
  | left + 1, attempt =>
    match ports.entropy engine.turn attempt with
    | none => .error (localError .tokenGenerationFailed "opaque cursor generation failed")
    | some candidate =>
      if isOpaqueToken ports candidate = true ∧ engine.lookup ports candidate = none then
        .ok candidate
      else generateToken engine left (attempt + 1)

/-- The candidate that keys a resizable snapshot. -/
def freshResizeIdentity (engine : Engine α) : ℕ → ℕ → Except ReadPaginationError (List Char)
  | 0, _ => .error (localError .tokenGenerationFailed "opaque identity generation exhausted")
  | left + 1, attempt =>
    match ports.entropy engine.turn attempt with
    | none => .error (localError .tokenGenerationFailed "opaque identity generation failed")
    | some candidate =>
      if isOpaqueToken ports candidate = true then
        if engine.admitted < 281474976710655 then .ok candidate
        else .error (localError .tokenGenerationFailed
          "resizable snapshot identity space exhausted")
      else freshResizeIdentity engine left (attempt + 1)

/-- The cursor of an offset; a token is drawn at most once for each offset. -/
def cursorFor (engine : Engine α) (snapshot : Snapshot α) (offset : ℕ) :
    Except ReadPaginationError (List Char × Snapshot α) :=
  match snapshot.cursorKey with
  | some candidate => .ok (resizedCursor ports candidate snapshot.serial offset, snapshot)
  | none =>
    match snapshot.cursors.find? fun cursor ↦ cursor.1 == offset with
    | some cursor => .ok (cursor.2, snapshot)
    | none => do
      let token ← generateToken ports engine ports.options.tokenGenerationAttempts 0
      pure (token, { snapshot with cursors := snapshot.cursors ++ [(offset, token)] })

end Cursors

section Pages

/-- The page at an offset. A page that was served before is the same one, so that the memory of
fixed pages is left out. -/
def pageAt (engine : Engine α) (snapshot : Snapshot α) (offset limit : ℕ) :
    Except ReadPaginationError (ReadPage α × Snapshot α) :=
  let items := (snapshot.items.drop offset).take limit
  let following := offset + items.length
  if following < snapshot.items.length then do
    let (cursor, snapshot) ← cursorFor ports engine snapshot following
    pure ({ items, next := some { url := snapshot.continuationUrl, cursor
                                  limit := if ports.options.resizable then some limit else none } },
      snapshot)
  else pure ({ items, next := none }, snapshot)

def validateLimit (limit : Option ℕ) : Except ReadPaginationError ℕ := do
  let selected := limit.getD ports.options.defaultPageItems
  check (0 < selected ∧ selected ≤ ports.options.maxPageItems)
    (localError .invalidLimit "pagination limit is outside the configured range")
  pure selected

/-- Identities are texts that are not blank. -/
def identityOf (value : String) : Except ReadPaginationError String := do
  check (value.toList.all (fun letter ↦ ReadHttp.isTrimmed letter.toNat) = false)
    (localError .invalidInput "pagination identities must be non-empty strings")
  pure value

end Pages

section Calls

namespace Engine

variable (engine : Engine α)

def observe (now : ℕ) : Engine α := { engine with lastClockValue := now }

def release (serial : ℕ) : Engine α :=
  { engine with snapshots := engine.snapshots.filter fun snapshot ↦ snapshot.serial != serial }

/-- Release what has expired; snapshots expire in the order of their admission. -/
def cleanupAt (now : ℕ) : Engine α :=
  { engine with
    snapshots := engine.snapshots.dropWhile fun snapshot ↦ decide (snapshot.expiresAt ≤ now) }

def enterEpoch (scopeEpoch : String) : Engine α :=
  { engine with
    snapshots := if ∀ active ∈ engine.activeScopeEpoch, active = scopeEpoch then engine.snapshots
      else []
    activeScopeEpoch := some scopeEpoch }

def retainedSnapshotBytes : ℕ := (engine.snapshots.map Snapshot.retainedBytes).sum

def retainedSnapshotNodes : ℕ := (engine.snapshots.map Snapshot.retainedNodes).sum

def retainedCursorPositions : ℕ :=
  (engine.snapshots.map Snapshot.reservedCursorPositions).sum

/-- Keep a snapshot whose cursors have grown. -/
def update (snapshot : Snapshot α) : Engine α :=
  { engine with
    snapshots := engine.snapshots.map fun other ↦
      if other.serial = snapshot.serial then snapshot else other }

end Engine

/-- The snapshot that the items of a first page need, if they do not fit it. -/
def admitSnapshot (engine : Engine α) (now limit : ℕ) (url : String)
    (input : ReadFirstPageInput α) : Except ReadPaginationError (Option (Snapshot α)) := do
  let options := ports.options
  let shared := decide (limit < input.items.length) && !options.resizable
  let byteCapacity := options.retainedSnapshotByteCapacity -
    if shared then engine.retainedSnapshotBytes else 0
  let nodeCapacity := options.retainedSnapshotNodeCapacity -
    if shared then engine.retainedSnapshotNodes else 0
  let (bytes, nodes) ← require (ports.weigh input.items)
    (localError .invalidSnapshot "pagination items must be JSON data")
  check (bytes ≤ byteCapacity ∧ nodes ≤ nodeCapacity)
    (if options.resizable then localError .snapshotLimitExceeded
        "this selected snapshot exceeds the configured byte/node bound"
      else localError .capacityExceeded "pagination snapshot capacity is exhausted")
  if input.items.length ≤ limit then pure none
  else do
    let reserved := if options.resizable then 0 else (input.items.length + limit - 1) / limit - 1
    check (reserved ≤ options.maxRetainedCursorPositionsPerSnapshot)
      (localError .capacityExceeded
        "this pagination snapshot exceeds the per-snapshot retained-state limit")
    check (options.resizable = true →
      engine.retainedSnapshotBytes + bytes ≤ options.retainedSnapshotByteCapacity ∧
        engine.retainedSnapshotNodes + nodes ≤ options.retainedSnapshotNodeCapacity)
      (localError .capacityExceeded
        "active snapshots exhaust the retained byte/node capacity")
    check (engine.snapshots.length + engine.retainedCursorPositions + 1 + reserved ≤
      options.retainedStateCapacity)
      (localError .capacityExceeded "pagination retained-state capacity is exhausted")
    let cursorKey ← if options.resizable then
        (freshResizeIdentity ports engine options.tokenGenerationAttempts 0).map some
      else .ok none
    pure (some
      { serial := engine.admitted + 1, cursorKey, items := input.items, limit
        authorizationView := input.authorizationView, scopeEpoch := input.scopeEpoch
        projection := input.projection, continuationUrl := url
        expiresAt := now + options.cursorTtlMs, retainedBytes := bytes, retainedNodes := nodes
        reservedCursorPositions := reserved, cursors := [] })

/-- The checks of the input of a first page: its limit and its continuation URL. -/
def checkFirst (input : ReadFirstPageInput α) : Except ReadPaginationError (ℕ × String) := do
  let limit ← validateLimit ports input.limit
  let _ ← identityOf input.authorizationView
  let _ ← identityOf input.scopeEpoch
  let _ ← identityOf input.projection
  let url ← require (ports.validateContinuationUrl input.continuationUrl)
    (localError .invalidInput "the pagination continuation URL is invalid")
  pure (limit, url)

/-- Freeze the items and cut the first page. -/
def openSnapshot (engine : Engine α) (now limit : ℕ) (url : String)
    (input : ReadFirstPageInput α) : Except ReadPaginationError (ReadPage α) × Engine α :=
  match admitSnapshot ports engine now limit url input with
  | .error error => (.error error, engine)
  | .ok none => (.ok { items := input.items, next := none }, engine)
  | .ok (some snapshot) =>
    let registered := { engine with snapshots := engine.snapshots ++ [snapshot]
                                    admitted := engine.admitted + 1 }
    match pageAt ports registered snapshot 0 limit with
    | .error error => (.error error, registered.release snapshot.serial)
    | .ok (page, snapshot) => (.ok page, registered.update snapshot)

def closedError : ReadPaginationError := localError .configurationError "pagination is closed"

def clockError : ReadPaginationError :=
  localError .configurationError "the pagination clock returned an invalid time"

/-- Every call first asks for an open authority and a clock. -/
def entered (engine : Engine α) (clock : Option ℕ)
    (body : ℕ → Engine α → Except ReadPaginationError (ReadPage α) × Engine α) :
    Except ReadPaginationError (ReadPage α) × Engine α :=
  if engine.closed then (.error closedError, engine)
  else
    match clock with
    | none => (.error clockError, engine)
    | some value =>
      let now := max engine.lastClockValue value
      body now (engine.observe now)

def firstPage (engine : Engine α) (clock : Option ℕ) (input : ReadFirstPageInput α) :
    Except ReadPaginationError (ReadPage α) × Engine α :=
  entered engine clock fun now engine ↦
    let engine := engine.cleanupAt now
    match checkFirst ports input with
    | .error error => (.error error, engine)
    | .ok (limit, url) =>
      openSnapshot ports (engine.enterEpoch input.scopeEpoch) now limit url input

/-- The limit of a continuation: its own, or that of the first page. -/
def continuationLimit (snapshot : Snapshot α) : Option ℕ → Except ReadPaginationError ℕ
  | none => .ok snapshot.limit
  | some limit => validateLimit ports (some limit)

/-- Serve a bound cursor to who names the epoch, the view and the projection of its snapshot. -/
def serve (engine : Engine α) (snapshot : Snapshot α) (offset : ℕ)
    (input : ReadContinuationInput) : Except ReadPaginationError (ReadPage α × Snapshot α) := do
  let authorizationView ← identityOf input.authorizationView
  check (authorizationView = snapshot.authorizationView)
    (localError .foreignView "the pagination cursor belongs to another view")
  let projection ← identityOf input.projection
  check (projection = snapshot.projection)
    (localError .foreignProjection "the pagination cursor belongs to another projection")
  check (ports.options.resizable = true ∨ input.limit = none)
    (localError .invalidInput "this continuation does not permit resizing")
  let limit ← continuationLimit ports snapshot input.limit
  pageAt ports engine snapshot offset limit

def continuePage (engine : Engine α) (clock : Option ℕ) (input : ReadContinuationInput) :
    Except ReadPaginationError (ReadPage α) × Engine α :=
  entered engine clock fun now engine ↦
    match (engine.lookup ports input.token).filter
      fun direct ↦ decide (direct.1.expiresAt ≤ now) with
    | some direct =>
      (.error { code := .cursorExpired, message := "the pagination cursor expired"
                cursorReason := some .expired }, engine.release direct.1.serial)
    | none =>
      let engine := engine.cleanupAt now
      match engine.lookup ports input.token with
      | none =>
        (.error { code := .cursorExpired, message := "the pagination cursor is unavailable"
                  cursorReason := some .unknown }, engine)
      | some (snapshot, offset) =>
        match identityOf input.scopeEpoch with
        | .error error => (.error error, engine)
        | .ok scopeEpoch =>
          if scopeEpoch ≠ snapshot.scopeEpoch then
            (.error { code := .cursorExpired
                      message := "the pagination cursor belongs to another Scope epoch"
                      cursorReason := some .epochChanged }, engine.release snapshot.serial)
          else
            match serve ports engine snapshot offset input with
            | .error error => (.error error, engine)
            | .ok (page, snapshot) => (.ok page, engine.update snapshot)

/-- What may happen to the authority. The timer of the idle cleanup is a cleanup at any time. -/
inductive Call (α : Type) where
  | firstPage (clock : Option ℕ) (input : ReadFirstPageInput α)
  | continuePage (clock : Option ℕ) (input : ReadContinuationInput)
  | cleanupExpired (clock : Option ℕ)
  /-- Withdraw the first page of a resizable snapshot. -/
  | releaseUnissuedPage (serial : ℕ)
  | close

def Engine.close (engine : Engine α) : Engine α :=
  { engine with snapshots := [], activeScopeEpoch := none, closed := true }

def Engine.cleanupExpired (engine : Engine α) (clock : Option ℕ) : Engine α :=
  match clock with
  | none => engine
  | some value =>
    let now := max engine.lastClockValue value
    if engine.closed then engine else (engine.observe now).cleanupAt now

/-- One call. Only first pages and continuations answer with a page. -/
def Engine.call (engine : Engine α) (call : Call α) :
    Option (Except ReadPaginationError (ReadPage α)) × Engine α :=
  let outcome : Option (Except ReadPaginationError (ReadPage α)) × Engine α :=
    match call with
    | .firstPage clock input => (firstPage ports engine clock input).map some id
    | .continuePage clock input => (continuePage ports engine clock input).map some id
    | .cleanupExpired clock => (none, engine.cleanupExpired clock)
    | .releaseUnissuedPage serial =>
      (none, if ports.options.resizable then engine.release serial else engine)
    | .close => (none, engine.close)
  (outcome.1, { outcome.2 with turn := engine.turn + 1 })

end Calls

end Bdp.Pagination
