import Bdp.Transaction.Store

/-!
# Reads of a transaction store

Every read is one entry: it observes the current context, checks its cursor and its minimum against
that context, and projects retained groups. Pages and packets take whole events in order and stop at
the first one that no longer fits.
-/

namespace Bdp.Transaction

section Minimum

structure TransactionMinimum where
  scopeEpoch : String
  authorizationView : String
  minimumPosition : String
  deriving DecidableEq, Repr

/-- A minimum as a request supplies it. -/
inductive SuppliedMinimum where
  | absent
  | unsupported
  | minimum (minimum : TransactionMinimum)
  deriving DecidableEq, Repr

/-- Runs within the entry of the representation. -/
def checkTransactionMinimum (minimum : TransactionMinimum) (context : TransactionReadContext) :
    Except ReadFailure Unit := do
  check (minimum.scopeEpoch = context.scopeEpoch) .cursorExpired
  check (minimum.authorizationView = context.authorizationView) .foreignView
  let required ← require (readPosition minimum.minimumPosition)
    (.internal "invalid owner minimum position")
  check (required ≤ context.scopePosition) .behind

/-- A position of unknown form carries no ordering: a waitable read may wait for it. -/
def checkCurrentReadMinimum (minimum : TransactionMinimum) (context : TransactionReadContext)
    (waitable : Bool) : Except ReadFailure Unit :=
  match readPosition minimum.minimumPosition with
  | none =>
    if waitable = false ∨ minimum.scopeEpoch ≠ context.scopeEpoch ∨
        minimum.authorizationView ≠ context.authorizationView then .error .unsupported
    else .error .unproved
  | some _ => checkTransactionMinimum minimum context

def checkSupplied (supplied : SuppliedMinimum) (context : TransactionReadContext) :
    Except ReadFailure Unit :=
  match supplied with
  | .minimum minimum => checkTransactionMinimum minimum context
  | _ => .ok ()

end Minimum

/-- A read finds a representation under the context of its entry, or refuses to disclose. -/
inductive ReadOutcome (α : Type) where
  | found (value : α) (context : TransactionReadContext)
  | missing (context : TransactionReadContext)
  /-- A refusal that is no representation. -/
  | problem (code : String) (context : TransactionReadContext)
  | unsupported
  deriving DecidableEq

structure EventPage where
  source : String
  events : List TransactionEvent
  /-- The cursor that the next page starts after. -/
  next : Option String
  deriving DecidableEq

/-- Where a scan stands: the group it reads next, and the ordinal behind which it continues. -/
structure TransactionEventScan where
  source : TransactionEventSource
  context : TransactionReadContext
  «at» : ℕ
  ordinal : Option ℕ
  head : ℕ
  deriving DecidableEq

structure TransactionEventPacket where
  context : TransactionReadContext
  scan : TransactionEventScan
  caughtUp : Bool
  events : List TransactionEvent
  deriving DecidableEq

structure TransactionChangefeedPage where
  after : String
  observedHeadPosition : ℕ
  groups : List TransactionChangeGroup
  next : Option String
  deriving DecidableEq

/-- The bytes of a page that is being filled. -/
structure PageFill where
  events : List TransactionEvent
  bytes : ℕ
  deriving DecidableEq

namespace TransactionStore

variable (config : StoreConfiguration) (store : TransactionStore)

def readContext : TransactionReadContext :=
  { scopeEpoch := store.persisted.epoch
    authorizationView := store.authorization.authorizationView
    scopePosition := store.persisted.position }

/-- The first group at or after a position, up to a head, under the byte bound of groups. The rows
stand in the order of their positions. -/
def retainedGroup («at» head : ℕ) : Except ReadFailure (Option GroupRow) :=
  match store.persisted.groups.find? fun row ↦ decide («at» ≤ row.position ∧ row.position ≤ head) with
  | none => .ok none
  | some row => do
    check (config.groupBytes row.body ≤ config.eventGroupBytes)
      (.internal "retained Event group exceeds admitted byte bound")
    pure (some row)

/-- A subject is a source once it was committed, also after its deletion. -/
def eventSourceKnown (source : TransactionEventSource) : Bool :=
  match source.subject with
  | none => true
  | some subject => store.authorization.allVisible &&
    ((stripScope config.scope subject).bind fun path ↦ store.persisted.tables.identities[path]?).isSome

/-- The events of a source in a group; a cursor must name one of them. -/
def eventProjection (context : TransactionReadContext) (source : TransactionEventSource)
    (cursor : Option (EventCursor × String)) (row : GroupRow) :
    Except ReadFailure (List TransactionEvent) := do
  let projected ← projectTransactionEventGroup config.tags config.scope context source row.position
    store.authorization.allVisible row.body
  match cursor with
  | none => pure projected
  | some (cursor, id) =>
    check (row.position = cursor.position ∧
        projected.any (fun event ↦ event.ordinal == cursor.ordinal && event.id == id) = true)
      .parameter
    pure projected

/-- Whether an event stands at or before an ordinal of its group. -/
def behind (ordinal : Option ℕ) (event : TransactionEvent) : Bool :=
  ordinal.any fun ordinal ↦ decide (event.ordinal ≤ ordinal)

/-- Take events in order until one does not fit; a page must hold its first event. -/
def fillPage (source : TransactionEventSource) (maximumBytes : ℕ) (fill : PageFill) :
    List TransactionEvent → Except ReadFailure (PageFill × Bool)
  | [] => .ok (fill, true)
  | event :: events =>
    let bytes := fill.bytes + (if fill.events = [] then 0 else 1) + config.eventBytes event
    if config.receiptMaximumItems < fill.events.length + 1 ∨
        maximumBytes < config.envelopeBytes source.url + bytes +
          config.continuationBytes source.url event.id then do
      check (fill.events ≠ []) (.internal "finite Event page cannot hold first retained Event")
      pure (fill, false)
    else fillPage source maximumBytes { events := fill.events ++ [event], bytes } events

/-- Fill a page from the groups that remain up to the head. The cursor, when there is one, is
matched in the first group. -/
def readGroups (context : TransactionReadContext) (source : TransactionEventSource) :
    ℕ → ℕ → Option (EventCursor × String) → PageFill → Except ReadFailure (PageFill × Bool)
  | 0, _, cursor, fill => do
    check (cursor = none) .parameter
    pure (fill, true)
  | remaining + 1, position, cursor, fill => do
    let row ← store.retainedGroup config position context.scopePosition
    match row with
    | none => .error (if cursor = none then .internal "missing retained Event group" else .parameter)
    | some row => do
      check (cursor ≠ none ∨ row.position = position) (.internal "missing retained Event group")
      let projected ← store.eventProjection config context source cursor row
      let ordinal := cursor.map fun cursor ↦ cursor.1.ordinal
      let (fill, complete) ← fillPage config source config.eventPageBytes fill
        (projected.filter fun event ↦ !behind ordinal event)
      if complete = true then readGroups context source remaining (row.position + 1) none fill
      else pure (fill, false)

/-- The cursor of a request, checked against the context and the source. -/
def requestCursor (context : TransactionReadContext) (source : TransactionEventSource)
    (after : Option String) : Except ReadFailure (Option (EventCursor × String)) :=
  match after with
  | none => .ok none
  | some id => do
    let cursor ← require (parseTransactionEventCursor id) .parameter
    check (cursor.epoch = config.tags.digest ["epoch", context.scopeEpoch]) .cursorExpired
    check (cursor.view = config.tags.digest ["view", context.authorizationView]) .foreignView
    check (cursor.source = config.tags.digest ["source", source.url]) .parameter
    pure (some (cursor, id))

/-- An entry of the handle; a stopped handle refuses every one. -/
def entered {α : Type} (run : Except ReadFailure α) : Except ReadFailure α := do
  check (store.stopped = false) (.internal "transaction store is not accepting entries")
  run

def readEvents (source : TransactionEventSource) (after : Option String)
    (supplied : SuppliedMinimum) : Except ReadFailure (ReadOutcome EventPage) :=
  store.entered <|
    if store.eventSourceKnown config source = false then .ok (.missing store.readContext)
    else if supplied = .unsupported then .ok .unsupported
    else do
      let context := store.readContext
      checkSupplied supplied context
      let cursor ← requestCursor config context source after
      let first := (cursor.map fun cursor ↦ cursor.1.position).getD 1
      let (fill, complete) ← store.readGroups config context source
        (context.scopePosition + 1 - first) first cursor { events := [], bytes := 0 }
      let next := if complete = true then none else fill.events.getLast?.map TransactionEvent.id
      pure (.found { source := source.url, events := fill.events, next } context)

/-- One packet of a scan: the events of one group behind its ordinal, as far as they fit. -/
def eventPacket (state : TransactionEventScan) (context : TransactionReadContext)
    (cursor : Option (EventCursor × String)) : Except ReadFailure TransactionEventPacket :=
  let head := context.scopePosition
  if head < state.«at» then do
    check (cursor = none) .parameter
    pure { context, caughtUp := true, events := []
           scan := { state with context, head } }
  else do
    let lost : ReadFailure :=
      if cursor = none then .internal "missing retained Event group" else .parameter
    let found ← store.retainedGroup config state.«at» head
    let row ← require found lost
    check (row.position = state.«at») lost
    let projected ← store.eventProjection config context state.source cursor row
    let (fill, complete) ← fillPage config state.source config.eventPageBytes
      { events := [], bytes := 0 } (projected.filter fun event ↦ !behind state.ordinal event)
    let scan : TransactionEventScan :=
      if complete = true then { state with context, head, «at» := state.«at» + 1, ordinal := none }
      else { state with context, head
                        ordinal := fill.events.getLast?.map TransactionEvent.ordinal }
    pure { context, scan, caughtUp := decide (head < scan.«at»), events := fill.events }

def beginEventScan (source : TransactionEventSource) (after : Option String)
    (supplied : SuppliedMinimum) (invalidReconnect : Bool) :
    Except ReadFailure (ReadOutcome TransactionEventPacket) :=
  store.entered <|
    if store.eventSourceKnown config source = false then .ok (.missing store.readContext)
    else if supplied = .unsupported then .ok .unsupported
    else do
      let context := store.readContext
      checkSupplied supplied context
      check (invalidReconnect = false) .parameter
      let cursor ← requestCursor config context source after
      let packet ← store.eventPacket config
        { source, context, head := context.scopePosition
          «at» := (cursor.map fun cursor ↦ cursor.1.position).getD 1
          ordinal := cursor.map fun cursor ↦ cursor.1.ordinal } context cursor
      pure (.found packet context)

/-- The next packet of a scan, under an unchanged epoch and view. -/
def advanceEventScan (scan : TransactionEventScan) : Except ReadFailure TransactionEventPacket :=
  store.entered do
    check (store.eventSourceKnown config scan.source = true)
      (.internal "retained Event source identity lost")
    let context := store.readContext
    check (context.scopeEpoch = scan.context.scopeEpoch ∧
        context.authorizationView = scan.context.authorizationView ∧
        scan.head ≤ context.scopePosition)
      (.internal "Event scan context changed or head regressed")
    store.eventPacket config scan context none

/-- The position behind which a changefeed read starts. -/
def checkpointPosition (context : TransactionReadContext) (value : String) :
    Except ReadFailure ℕ := do
  let parsed ← require (parseCheckpoint value) .parameter
  match parsed with
  | none => pure 0
  | some checkpoint => do
    check (checkpoint.epoch = config.tags.digest ["epoch", config.scope, context.scopeEpoch])
      .cursorExpired
    check (checkpoint.view = config.tags.digest
      ["view", config.scope, context.scopeEpoch, context.authorizationView]) .foreignView
    pure checkpoint.position

/-- The head of the admission of a stream that starts now. -/
def captureChangesStart : Except ReadFailure String :=
  store.entered (.ok (transactionCheckpoint config.tags config.scope store.readContext
    store.persisted.position))

/-- One whole group behind a checkpoint, or none at the head. -/
def readChanges (after : String) (supplied : SuppliedMinimum) :
    Except ReadFailure (ReadOutcome TransactionChangefeedPage) :=
  store.entered <|
    if supplied = .unsupported then .ok .unsupported
    else do
      let context := store.readContext
      let head := context.scopePosition
      let start ← checkpointPosition config context after
      check (start ≤ head) .parameter
      check (start = 0 ∨ store.persisted.groups.any (fun row ↦ row.position == start) = true)
        (.internal "missing retained change group")
      checkSupplied supplied context
      let found ← store.retainedGroup config (start + 1) head
      match found with
      | none => do
        check (head ≤ start) (.internal "missing retained change group")
        pure (.found { after, observedHeadPosition := head, groups := [], next := none } context)
      | some row => do
        check (row.position = start + 1) (.internal "missing retained change group")
        let group ← projectTransactionChangeGroup config.tags config.scope context row.position
          store.authorization.allVisible row.body
        check (head ≤ row.position ∨
            store.persisted.groups.any (fun other ↦ other.position == row.position + 1) = true)
          (.internal "missing retained change group")
        let next := if row.position < head then some group.checkpoint else none
        pure (.found { after, observedHeadPosition := head, groups := [group], next } context)

end TransactionStore

end Bdp.Transaction
