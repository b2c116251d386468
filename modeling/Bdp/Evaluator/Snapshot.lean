import Bdp.Evaluator.AuthorityRead
import Bdp.Evaluator.SnapshotCheck
import Bdp.Library.JsonParts

/-!
# Snapshots

The capture of a snapshot and its preflight, which takes the same path without writing: the ledger
of issued snapshots and its live part, the reading of every row, the graph check, the cut of the two
streams into pages by their bytes, the sealed disposition, and the manifest. A retained capture
writes its rows and reads the manifest back from them.
-/

namespace Bdp.Evaluator.Snapshot

open Recovery (ResourceKind)
open Transaction (TransactionReadContext Digest renderPosition transactionCheckpoint maxSafeInteger
  INITIAL_TRANSACTION_VIEW)
open JsonParts

section Limits

def lifetimeMs : ℤ := 300000
def resourcesLimit : ℕ := 4096
def recordBytes : ℕ := 33554432
def liveHandles : ℕ := 8
def liveRecordBytes : ℕ := 67108864
def issuedHandles : ℕ := 65536
def dispositionBytes : ℕ := 1024
def snapshotPageItems : ℕ := 32
def pageBytes : ℕ := 4194304
def manifestBytes : ℕ := 10485760
/-- The bound of one representation, from the limits of the runtime. -/
def representationBytes : ℕ := 262144

end Limits

inductive SnapshotCode where
  | resourceNotFound
  | cursorExpired
  | foreignView
  | limitExceeded
  | temporarilyUnavailable
  deriving DecidableEq, Repr

inductive SnapshotError where
  | failure (code : SnapshotCode) (retryAfter : Option ℤ)
  | integrity (message : String)
  /-- An error of the record reader. -/
  | stopped (stop : Stop)
  deriving DecidableEq, Repr

structure Disposition where
  epoch : String
  view : String
  position : ℕ
  created : ℤ
  expires : ℤ
  expired : Bool
  counts : ℕ × ℕ
  bytes : ℕ
  plan : String
  seed : String
  pageCounts : ℕ × ℕ
  binding : String
  deriving DecidableEq

structure PageRange where
  kind : ResourceKind
  ordinal : ℕ
  token : String
  start : ℕ
  stop : ℕ
  bytes : ℕ
  digest : String
  deriving DecidableEq

/-- A row of the captured records. The body is kept as the text and as the record that it writes. -/
structure SnapshotRecord where
  snapshot : String
  kind : ResourceKind
  ordinal : ℕ
  id : String
  body : List Char
  value : ResourceRecord
  deriving DecidableEq

structure SnapshotTables where
  /-- The rows of the Resources under their local paths. -/
  graph : Graph
  visible : Bool
  snapshots : List (String × Disposition)
  records : List SnapshotRecord
  pages : List (String × PageRange)

structure SnapshotPage where
  items : List ResourceRecord
  next : Option String
  deriving DecidableEq

structure SnapshotManifest where
  id : String
  scope : String
  scopeEpoch : String
  authorizationView : String
  scopePosition : String
  checkpoint : String
  expiresAt : String
  beads : SnapshotPage
  links : SnapshotPage
  deriving DecidableEq

def isHexDigit (letter : Char) : Bool :=
  letter.isDigit || (decide ('a' ≤ letter) && decide (letter ≤ 'f'))

/-- `/^[a-f0-9]{64}$/` -/
def isHex64 (text : String) : Bool := decide (text.length = 64) && text.toList.all isHexDigit

/-- `/^[0-9a-f]{8}-[0-9a-f]{4}-[0-9a-f]{4}-[0-9a-f]{4}-[0-9a-f]{12}$/` -/
def isIdentity (text : String) : Bool :=
  decide (text.length = 36) && text.toList.zipIdx.all fun (letter, place) ↦
    if place ∈ [8, 13, 18, 23] then letter == '-' else isHexDigit letter

/-- What the capture takes from the runtime: texts, digests and tags. -/
structure SnapshotPorts where
  /-- `stringifyJsonValue` of a record. -/
  text : ResourceRecord → List Char
  /-- The text of a record holds its identity. -/
  text_id : ∀ record, bytes record.id.toList ≤ bytes (text record)
  /-- The body column of a row. -/
  bodyJson : StoredResource → List Char
  hash : List Char → String
  isHex64_hash : ∀ text, isHex64 (hash text) = true
  /-- The authenticated tag of a page, written in the URL alphabet. -/
  tag : String → List Char → List Char
  length_tag : ∀ seed text, (tag seed text).length = 43
  plain_tag : ∀ seed text, ∀ letter ∈ tag seed text, isPlain letter = true
  checkpoint : Digest
  isoText : ℤ → String

variable (ports : SnapshotPorts) (config : GraphConfiguration) (plane : ReadPlane)
  (member : MemberContext)

section Texts

def kindText : ResourceKind → String
  | .bead => "bead"
  | .link => "link"

def pageToken (seed id : String) (kind : ResourceKind) (ordinal : ℕ) : String :=
  String.ofList ("sp_".toList ++ (Nat.toDigits 10 ordinal ++ ('_' :: ports.tag seed
    (arrayText [stringText "hmac-sha256-ordinal-1", stringText id, stringText (kindText kind),
      numberText ordinal]))))

def transactionSnapshotUrl (scope id : String) (page : Option (ResourceKind × String)) : String :=
  match page with
  | none => scope ++ "snapshot?snapshot=" ++ id
  | some (kind, token) =>
    scope ++ "snapshot?snapshot=" ++ id ++ "&stream=" ++ kindText kind ++ "s&page=" ++ token

def nextText : Option String → List Char
  | none => "null".toList
  | some url => stringText url

def pageText (page : SnapshotPage) : List Char :=
  objectText [("items", arrayText (page.items.map ports.text)), ("next", nextText page.next)]

def rangeText (range : PageRange) : List Char :=
  objectText [("kind", stringText (kindText range.kind)), ("ordinal", numberText range.ordinal),
    ("token", stringText range.token), ("start", numberText range.start),
    ("end", numberText range.stop), ("bytes", numberText range.bytes),
    ("digest", stringText range.digest)]

def pairText (pair : ℕ × ℕ) : List Char := arrayText [numberText pair.1, numberText pair.2]

/-- The members of a disposition before its seal. -/
def unsignedMembers (d : Disposition) : List (String × List Char) :=
  [("epoch", stringText d.epoch), ("view", stringText d.view),
    ("position", numberText d.position), ("created", numberText d.created),
    ("expires", numberText d.expires), ("expired", boolText d.expired),
    ("counts", pairText d.counts), ("bytes", numberText d.bytes), ("plan", stringText d.plan),
    ("seed", stringText d.seed), ("pageCounts", pairText d.pageCounts)]

def dispositionText (d : Disposition) : List Char :=
  objectText (unsignedMembers d ++ [("binding", stringText d.binding)])

def sealBinding (id : String) (d : Disposition) : String :=
  ports.hash (arrayText [stringText id, objectText (unsignedMembers d)])

def sealDisposition (id : String) (d : Disposition) : Disposition :=
  { d with binding := sealBinding ports id d }

def manifestText (manifest : SnapshotManifest) : List Char :=
  objectText [("id", stringText manifest.id), ("scope", stringText manifest.scope),
    ("scopeEpoch", stringText manifest.scopeEpoch),
    ("authorizationView", stringText manifest.authorizationView),
    ("scopePosition", stringText manifest.scopePosition),
    ("checkpoint", stringText manifest.checkpoint), ("expiresAt", stringText manifest.expiresAt),
    ("erasures", arrayText []), ("beads", pageText ports manifest.beads),
    ("links", pageText ports manifest.links)]

end Texts

section Ledger

def checkDisposition (context : TransactionReadContext) (id : String) (d : Disposition) :
    Except SnapshotError Unit := do
  check (bytes (dispositionText d) + bytes id.toList ≤ dispositionBytes)
    (.integrity "oversized disposition")
  check (d.binding = sealBinding ports id d) (.integrity "disposition commitment")
  check (isHex64 d.seed = true) (.integrity "page token seed")
  check ((1 ≤ d.pageCounts.1 ∧ d.pageCounts.1 ≤ resourcesLimit) ∧
    1 ≤ d.pageCounts.2 ∧ d.pageCounts.2 ≤ resourcesLimit) (.integrity "issued page counts")
  check (d.epoch = context.scopeEpoch ∧
    (d.view = context.authorizationView ∨ d.view = INITIAL_TRANSACTION_VIEW))
    (.integrity "persisted context mismatch")
  check (d.position ≤ maxSafeInteger ∧ d.position ≤ context.scopePosition)
    (.integrity "anchor exceeds owner")
  check ((0 ≤ d.created ∧ d.created ≤ maxSafeInteger) ∧
    (-maxSafeInteger ≤ d.expires ∧ d.expires ≤ maxSafeInteger) ∧
    d.expires = d.created + lifetimeMs) (.integrity "fixed lifetime")
  check (d.counts.1 + d.counts.2 ≤ resourcesLimit) (.integrity "record counts")
  check (d.bytes ≤ recordBytes ∧ isHex64 d.plan = true)
    (.integrity "record bytes or page commitment")
  check (d.pageCounts.1 ≤ max 1 d.counts.1 ∧ d.pageCounts.2 ≤ max 1 d.counts.2)
    (.integrity "page counts exceed record counts")

def SnapshotTables.disposition (tables : SnapshotTables) (context : TransactionReadContext)
    (id : String) : Except SnapshotError (Option Disposition) :=
  match tables.snapshots.lookup id with
  | none => .ok none
  | some d => do
    checkDisposition ports context id d
    pure (some d)

/-- Whether retained detail of a snapshot may stand. -/
def SnapshotTables.retains (tables : SnapshotTables) (id : String) : Bool :=
  (tables.snapshots.lookup id).any fun d ↦ !d.expired

def SnapshotTables.ledgerBounds (tables : SnapshotTables) : Except SnapshotError ℕ := do
  check (tables.snapshots.length ≤ issuedHandles ∧ ∀ row ∈ tables.snapshots,
    bytes row.1.toList ≤ 36 ∧ bytes (dispositionText row.2) ≤ dispositionBytes)
    (.integrity "issuance ledger bound")
  check (∀ row ∈ tables.records, tables.retains row.snapshot = true)
    (.integrity "orphaned or expired detail")
  check (∀ row ∈ tables.pages, tables.retains row.1 = true)
    (.integrity "orphaned or expired detail")
  pure tables.snapshots.length

def SnapshotTables.liveLedger (tables : SnapshotTables) (now : ℤ)
    (context : TransactionReadContext) : Except SnapshotError (List Disposition) := do
  let rows := tables.snapshots.filter fun row ↦ !row.2.expired
  check (rows.length ≤ liveHandles) (.integrity "live issuance ledger exceeds bound")
  rows.mapM fun row ↦ do
    check (isIdentity row.1 = true) (.integrity "issued identity")
    checkDisposition ports context row.1 row.2
    check (now ≤ row.2.expires)
      (.integrity "capture requires completed expiry at its instant")
    pure row.2

/-- Full live capacity: the delay until the first snapshot expires, in seconds. -/
def unavailable (live : List Disposition) (now : ℤ) : SnapshotError :=
  .failure .temporarilyUnavailable <| some <|
    match live.map Disposition.expires with
    | [] => 0
    | first :: rest => max 0 ((rest.foldl min first - now + 999) / 1000)

end Ledger

section Records

/-- A row as it is captured. -/
structure Captured where
  localId : String
  kind : ResourceKind
  body : List Char
  value : ResourceRecord
  deriving DecidableEq

def thrown {α : Type} (outcome : Except String α) : Except SnapshotError α :=
  outcome.mapError fun message ↦ .stopped (.fault message)

/-- The checks of the record of a row against the Scope and the columns of the row. -/
def checkRecord (row : StoredResource) (value : ResourceRecord) : Except SnapshotError Unit :=
  match value with
  | .bead bead => thrown (validateServerBead plane (member.options config) bead)
  | .link link => do
    thrown (validateServerLink plane (member.options config) link)
    [(row.shape.source, link.source), (row.shape.target, link.target)].forM fun endpoint ↦ do
      let column ← thrown (endpointIndex plane (member.options config) endpoint.2)
      check (endpoint.1 = some column) (.integrity "endpoint index mismatch")

/-- The record of a row, and the text that is captured for it. -/
def record (localId : String) (row : StoredResource) : Except SnapshotError Captured := do
  check (bytes (ports.bodyJson row) ≤ representationBytes)
    (.integrity "oversized or missing authority record")
  let value ← (storedRecord (member.options config) { row with id := localId }).mapError .stopped
  checkRecord config plane member row value
  check (bytes (ports.text value) ≤ representationBytes)
    (.integrity "projected record exceeds bound")
  pure { localId, kind := row.kind, body := ports.text value, value }

/-- Read the rows one after another; their texts must fit together. -/
def readRecords : List (String × StoredResource) → ℕ → Except SnapshotError (List Captured)
  | [], _ => .ok []
  | (localId, row) :: rows, total => do
    let captured ← record ports config plane member localId row
    check (total + bytes captured.body ≤ recordBytes) (.failure .limitExceeded none)
    let rest ← readRecords rows (total + bytes captured.body)
    pure (captured :: rest)

end Records

section Pages

/-- A page before its token is known. -/
structure PageCut where
  ordinal : ℕ
  start : ℕ
  stop : ℕ
  bytes : ℕ
  digest : String
  deriving DecidableEq

/-- The bodies that a page takes behind those it has. -/
def fitPage (framing : ℕ) : ℕ → ℕ → List (List Char) → List (List Char)
  | _, _, [] => []
  | count, size, body :: bodies =>
    if count < snapshotPageItems ∧ framing + size + bytes body + count ≤ pageBytes then
      body :: fitPage framing (count + 1) (size + bytes body) bodies
    else []

def joinLines (bodies : List (List Char)) : List Char := ['\n'].intercalate bodies

/-- Cut a stream into pages; an empty stream has one empty page. -/
def cutPages (framing : ℕ → ℕ) (count : ℕ) :
    ℕ → ℕ → ℕ → List (List Char) → Except SnapshotError (List PageCut)
  | 0, _, _, _ => .error (.integrity "pages do not end")
  | fuel + 1, ordinal, start, bodies => do
    let taken := fitPage (framing ordinal) 0 0 bodies
    let stop := start + taken.length
    check (start < stop ∨ count = 0) (.integrity "one record cannot fit page")
    let cut := { ordinal, start, stop, bytes := (taken.map bytes).sum
                 digest := ports.hash (joinLines taken) }
    if stop < count then do
      let rest ← cutPages framing count fuel (ordinal + 1) stop (bodies.drop taken.length)
      pure (cut :: rest)
    else pure [cut]

/-- The bytes of an empty page that names its successor. -/
def framing (id seed : String) (kind : ResourceKind) (ordinal : ℕ) : ℕ :=
  bytes (pageText ports { items := [], next := some (transactionSnapshotUrl config.scope.href id
    (some (kind, pageToken ports seed id kind (ordinal + 1)))) })

def stream (kind : ResourceKind) (captured : List Captured) : List Captured :=
  captured.filter fun row ↦ row.kind == kind

def cutStream (id seed : String) (kind : ResourceKind) (captured : List Captured) :
    Except SnapshotError (List PageCut) :=
  let bodies := (stream kind captured).map Captured.body
  cutPages ports (framing ports config id seed kind) bodies.length (bodies.length + 1) 0 0 bodies

def PageCut.range (id seed : String) (kind : ResourceKind) (cut : PageCut) : PageRange :=
  { kind, ordinal := cut.ordinal, token := pageToken ports seed id kind cut.ordinal
    start := cut.start, stop := cut.stop, bytes := cut.bytes, digest := cut.digest }

/-- A page of a stream, with the page behind it. -/
def pageOf (id : String) (kind : ResourceKind) (items : List ResourceRecord)
    (next : Option PageRange) : Except SnapshotError SnapshotPage := do
  let page : SnapshotPage :=
    { items, next := next.map fun range ↦
        transactionSnapshotUrl config.scope.href id (some (kind, range.token)) }
  check (bytes (pageText ports page) ≤ pageBytes) (.integrity "serialized page bound")
  pure page

end Pages

section Reading

/-- The earlier page: Beads before Links, then by ordinal. -/
def PageBefore (left right : String × PageRange) : Prop :=
  left.2.kind = .bead ∧ right.2.kind = .link ∨
    left.2.kind = right.2.kind ∧ left.2.ordinal ≤ right.2.ordinal

instance : DecidableRel PageBefore := fun left right ↦
  inferInstanceAs (Decidable (left.2.kind = .bead ∧ right.2.kind = .link ∨
    left.2.kind = right.2.kind ∧ left.2.ordinal ≤ right.2.ordinal))

/-- The pages of one stream must follow each other without a gap; the end of the last one. -/
def checkRanges (seed id : String) (kind : ResourceKind) (count : ℕ) :
    ℕ → ℕ → List PageRange → Except SnapshotError ℕ
  | _, stop, [] => .ok stop
  | ordinal, stop, range :: ranges => do
    check (range.ordinal = ordinal ∧ range.start = stop ∧ range.start ≤ range.stop ∧
      range.stop - range.start ≤ snapshotPageItems ∧
      (range.start < range.stop ∨ ordinal = 0 ∧ count = 0)) (.integrity "page range")
    check (range.token = pageToken ports seed id kind ordinal ∧ range.bytes ≤ pageBytes ∧
      isHex64 range.digest = true) (.integrity "page binding")
    checkRanges seed id kind count (ordinal + 1) range.stop ranges

def ofKind (kind : ResourceKind) (ranges : List PageRange) : List PageRange :=
  ranges.filter fun range ↦ range.kind == kind

/-- The stored records of one stream of a snapshot. -/
def SnapshotTables.recordsOf (tables : SnapshotTables) (id : String) (kind : ResourceKind) :
    List SnapshotRecord :=
  tables.records.filter fun row ↦ row.snapshot == id && row.kind == kind

def checkStream (d : Disposition) (id : String) (kind : ResourceKind) (pages count : ℕ)
    (ranges : List PageRange) : Except SnapshotError Unit := do
  check ((ofKind kind ranges).length = pages) (.integrity "missing stream plan")
  let stop ← checkRanges ports d.seed id kind count 0 0 (ofKind kind ranges)
  check (stop = count) (.integrity "incomplete stream plan")

/-- The stored page plan of a snapshot, checked in full. -/
def SnapshotTables.plan (tables : SnapshotTables) (id : String) (d : Disposition) :
    Except SnapshotError (List PageRange) := do
  let stored := tables.pages.filter fun row ↦ row.1 == id
  check (stored.length ≤ resourcesLimit + 2 ∧ ∀ row ∈ stored,
    bytes row.2.token.toList ≤ 52 ∧ bytes row.2.digest.toList ≤ 64)
    (.integrity "page plan size bound")
  let ranges := (stored.insertionSort PageBefore).map Prod.snd
  check (ports.hash (arrayText (ranges.map rangeText)) = d.plan)
    (.integrity "page plan commitment")
  checkStream ports d id .bead d.pageCounts.1 d.counts.1 ranges
  checkStream ports d id .link d.pageCounts.2 d.counts.2 ranges
  check ((ranges.map PageRange.bytes).sum = d.bytes) (.integrity "plan record bytes")
  check ((tables.recordsOf id .bead).length = d.counts.1 ∧
    (tables.recordsOf id .link).length = d.counts.2) (.integrity "stored count")
  check ((((tables.recordsOf id .bead) ++ tables.recordsOf id .link).map fun row ↦
    bytes row.body).sum = d.bytes) (.integrity "stored bytes")
  pure ranges

/-- The columns that a captured record is read with. -/
def capturedShape : ResourceKind → Recovery.ResourceShape
  | .bead => .bead
  | .link => .link "" ""

def reread (row : SnapshotRecord) : Except SnapshotError ResourceRecord := do
  let stored : StoredResource :=
    { id := localSlice (member.options config) row.id, shape := capturedShape row.kind
      body := row.value }
  let value ← (storedRecord (member.options config) stored).mapError .stopped
  match value with
  | .bead bead => thrown (validateServerBead plane (member.options config) bead)
  | .link link => thrown (validateServerLink plane (member.options config) link)
  pure value

def PageRange.holds (range : PageRange) (row : SnapshotRecord) : Bool :=
  decide (range.start ≤ row.ordinal ∧ row.ordinal < range.stop)

def OrdinalBefore (left right : SnapshotRecord) : Prop := left.ordinal ≤ right.ordinal

instance : DecidableRel OrdinalBefore :=
  fun left right ↦ inferInstanceAs (Decidable (left.ordinal ≤ right.ordinal))

/-- The page of a stream that bears a token, or the first one. -/
def pickRange (pages : List PageRange) : Option String → Option PageRange
  | none => pages.head?
  | some token => pages.find? fun range ↦ range.token == token

def SnapshotTables.page (tables : SnapshotTables) (id : String) (ranges : List PageRange)
    (kind : ResourceKind) (token : Option String) : Except SnapshotError SnapshotPage := do
  let pages := ofKind kind ranges
  let range ← require (pickRange pages token) (.failure .resourceNotFound none)
  let rows := ((tables.recordsOf id kind).filter range.holds).insertionSort OrdinalBefore
  check (rows.map SnapshotRecord.ordinal = List.range' range.start (range.stop - range.start) ∧
    ∀ row ∈ rows, bytes row.body ≤ representationBytes ∧ bytes row.id.toList ≤ representationBytes)
    (.integrity "page row sizes")
  let values ← rows.mapM (reread config plane member)
  check (ports.hash (joinLines (rows.map SnapshotRecord.body)) = range.digest)
    (.integrity "captured body commitment")
  pageOf ports config id kind values pages[range.ordinal + 1]?

/-- The disposition and the plan behind an identity. -/
def SnapshotTables.resolve (tables : SnapshotTables) (id : String) (now : ℤ)
    (context : TransactionReadContext) : Except SnapshotError (Disposition × List PageRange) := do
  check (isIdentity id = true) (.failure .resourceNotFound none)
  let found ← tables.disposition ports context id
  let d ← require found (.failure .resourceNotFound none)
  check (d.view = context.authorizationView) (.failure .foreignView none)
  check (d.expired = false ∧ now ≤ d.expires) (.failure .cursorExpired none)
  let ranges ← tables.plan ports id d
  pure (d, ranges)

def manifestOf (id : String) (d : Disposition) (context : TransactionReadContext)
    (beads links : SnapshotPage) : SnapshotManifest :=
  { id := transactionSnapshotUrl config.scope.href id none, scope := config.scope.href
    scopeEpoch := d.epoch, authorizationView := d.view
    scopePosition := String.ofList (renderPosition d.position)
    checkpoint := transactionCheckpoint ports.checkpoint config.scope.href context d.position
    expiresAt := ports.isoText d.expires, beads, links }

def manifestValue (id : String) (d : Disposition) (context : TransactionReadContext)
    (beads links : SnapshotPage) : Except SnapshotError SnapshotManifest := do
  let manifest := manifestOf ports config id d context beads links
  check (bytes (manifestText ports manifest) ≤ manifestBytes)
    (.integrity "serialized manifest bound")
  pure manifest

def SnapshotTables.manifest (tables : SnapshotTables) (id : String) (now : ℤ)
    (context : TransactionReadContext) : Except SnapshotError SnapshotManifest := do
  let (d, ranges) ← tables.resolve ports id now context
  let beads ← tables.page ports config plane member id ranges .bead none
  let links ← tables.page ports config plane member id ranges .link none
  manifestValue ports config id d context beads links

end Reading

section Capture

/-- The rows that a capture reads; nothing without visibility. -/
def SnapshotTables.rows (tables : SnapshotTables) : List (String × StoredResource) :=
  if tables.visible then tables.graph.resources.toList else []

/-- The captured Links under the local paths of their sources. -/
def SnapshotTables.outgoing (tables : SnapshotTables) :
    Except SnapshotError (List (String × LinkRecord)) :=
  if tables.visible then thrown (outgoingIndex config plane.aliasesScope tables.graph) else .ok []

/-- The captured rows of both streams and their pages. -/
structure Prepared where
  captured : List Captured
  beads : List PageCut
  links : List PageCut

/-- What preflight and capture compute before anything is written. -/
def SnapshotTables.prepare (tables : SnapshotTables) (id seed : String) (now : ℤ)
    (context : TransactionReadContext) : Except SnapshotError Prepared := do
  let issued ← tables.ledgerBounds
  check (issued < issuedHandles) (.failure .limitExceeded none)
  let live ← tables.liveLedger ports now context
  let used := (live.map Disposition.bytes).sum
  let rows := tables.rows
  let stored := (rows.map fun row ↦ bytes (ports.bodyJson row.2)).sum
  check (rows.length ≤ resourcesLimit ∧ stored ≤ recordBytes) (.failure .limitExceeded none)
  check (live.length < liveHandles ∧ used + stored ≤ liveRecordBytes) (unavailable live now)
  check ((rows.map fun row ↦ bytes row.1.toList).sum ≤ recordBytes)
    (.integrity "authority identity bytes")
  let captured ← readRecords ports config plane member rows 0
  let outgoing ← tables.outgoing config plane
  captured.forM fun row ↦
    thrown (checkGraph config plane.aliasesScope tables.graph outgoing row.localId row.value)
  check (used + (captured.map fun row ↦ bytes row.body).sum ≤ liveRecordBytes)
    (unavailable live now)
  let beads ← cutStream ports config id seed .bead captured
  let links ← cutStream ports config id seed .link captured
  pure { captured, beads, links }

def Prepared.ranges (prepared : Prepared) (id seed : String) : List PageRange :=
  prepared.beads.map (PageCut.range ports id seed .bead) ++
    prepared.links.map (PageCut.range ports id seed .link)

def Prepared.disposition (prepared : Prepared) (id seed : String) (now : ℤ)
    (context : TransactionReadContext) : Disposition :=
  sealDisposition ports id
    { epoch := context.scopeEpoch, view := context.authorizationView
      position := context.scopePosition, created := now, expires := now + lifetimeMs
      expired := false
      counts := ((stream .bead prepared.captured).length, (stream .link prepared.captured).length)
      bytes := (prepared.captured.map fun row ↦ bytes row.body).sum
      plan := ports.hash (arrayText ((prepared.ranges ports id seed).map rangeText)), seed
      pageCounts := (prepared.beads.length, prepared.links.length), binding := "" }

/-- The records of a stream under the identity of a snapshot. -/
def recordRows (id : String) (kind : ResourceKind) (captured : List Captured) :
    List SnapshotRecord :=
  (stream kind captured).zipIdx.map fun (row, ordinal) ↦
    { snapshot := id, kind, ordinal, id := row.value.id, body := row.body, value := row.value }

/-- Write a record; its place and its identity must be free. -/
def SnapshotTables.insertRecord (tables : SnapshotTables) (row : SnapshotRecord) :
    Except SnapshotError SnapshotTables := do
  check (∀ other ∈ tables.records, other.snapshot = row.snapshot →
    (other.kind, other.ordinal) ≠ (row.kind, row.ordinal) ∧ other.id ≠ row.id)
    (.integrity "UNIQUE constraint failed: snapshot_records")
  pure { tables with records := tables.records ++ [row] }

/-- Write a page; its place and its token must be free. -/
def SnapshotTables.insertPage (tables : SnapshotTables) (row : String × PageRange) :
    Except SnapshotError SnapshotTables := do
  check (∀ other ∈ tables.pages, other.2.token ≠ row.2.token ∧ (other.1 = row.1 →
    (other.2.kind, other.2.ordinal) ≠ (row.2.kind, row.2.ordinal)))
    (.integrity "UNIQUE constraint failed: snapshot_pages")
  pure { tables with pages := tables.pages ++ [row] }

def SnapshotTables.insertSnapshot (tables : SnapshotTables) (id : String) (d : Disposition) :
    Except SnapshotError SnapshotTables := do
  check (id ∉ tables.snapshots.map Prod.fst) (.integrity "UNIQUE constraint failed: snapshots")
  pure { tables with snapshots := tables.snapshots ++ [(id, d)] }

/-- Write what was prepared. The source writes each row when it has it; a row that is refused undoes
all of them. -/
def SnapshotTables.retain (tables : SnapshotTables) (id seed : String) (prepared : Prepared)
    (d : Disposition) : Except SnapshotError SnapshotTables := do
  let tables ← (recordRows id .bead prepared.captured ++
    recordRows id .link prepared.captured).foldlM SnapshotTables.insertRecord tables
  let tables ← ((prepared.ranges ports id seed).map fun range ↦ (id, range)).foldlM
    SnapshotTables.insertPage tables
  tables.insertSnapshot id d

/-- The first page of a stream, from what was prepared. -/
def firstPage (id : String) (kind : ResourceKind) (captured : List Captured)
    (ranges : List PageRange) : Except SnapshotError SnapshotPage := do
  let range ← require ((ofKind kind ranges).find? fun range ↦ range.ordinal == 0)
    (.integrity "missing prepared first page")
  let items := ((stream kind captured).drop range.start).take (range.stop - range.start)
  pageOf ports config id kind (items.map Captured.value)
    ((ofKind kind ranges).find? fun range ↦ range.ordinal == 1)

/-- The fixed layout witnesses of a capture that is not retained. -/
def witnessId : String := "00000000-0000-0000-0000-000000000000"
def witnessSeed : String := String.ofList (List.replicate 64 '0')

/-- Capture the rows under an identity and a seed that were drawn for it, or under the layout
witnesses without writing anything. -/
def SnapshotTables.captureWith (tables : SnapshotTables) (now : ℤ)
    (context : TransactionReadContext) (retained : Option (String × String)) :
    Except SnapshotError (SnapshotManifest × SnapshotTables) := do
  let (id, seed) := retained.getD (witnessId, witnessSeed)
  let prepared ← tables.prepare ports config plane member id seed now context
  let d := prepared.disposition ports id seed now context
  check (bytes (dispositionText d) + bytes id.toList ≤ dispositionBytes)
    (.integrity "disposition bound")
  if retained.isSome then do
    let after ← tables.retain ports id seed prepared d
    let manifest ← after.manifest ports config plane member id now context
    pure (manifest, after)
  else do
    let ranges := prepared.ranges ports id seed
    let beads ← firstPage ports config id .bead prepared.captured ranges
    let links ← firstPage ports config id .link prepared.captured ranges
    let manifest ← manifestValue ports config id d context beads links
    pure (manifest, tables)

def SnapshotTables.preflight (tables : SnapshotTables) (now : ℤ)
    (context : TransactionReadContext) : Except SnapshotError Unit :=
  (tables.captureWith ports config plane member now context none).map fun _ ↦ ()

def SnapshotTables.capture (tables : SnapshotTables) (now : ℤ) (context : TransactionReadContext)
    (id seed : String) : Except SnapshotError (SnapshotManifest × SnapshotTables) :=
  tables.captureWith ports config plane member now context (some (id, seed))

end Capture

end Bdp.Evaluator.Snapshot
