import Bdp.Library.Checked
import Bdp.Library.Table

/-!
# Recovery store tables

The tables of the recovery store and the statements that a member transaction runs on them. Texts
are kept as they were admitted; only their JSON syntax is checked.
-/

namespace Bdp.Recovery

inductive ResourceKind where
  | bead
  | link
  deriving DecidableEq, Repr

/-- A Bead carries no endpoints, and a Link carries both. -/
inductive ResourceShape where
  | bead
  | link (source target : String)
  deriving DecidableEq, Repr

namespace ResourceShape

def kind : ResourceShape → ResourceKind
  | bead => .bead
  | link _ _ => .link

def source : ResourceShape → Option String
  | bead => none
  | link source _ => some source

def target : ResourceShape → Option String
  | bead => none
  | link _ target => some target

end ResourceShape

structure StoredResource where
  id : String
  bodyJson : String
  shape : ResourceShape
  deriving DecidableEq, Repr

namespace StoredResource

def kind (resource : StoredResource) : ResourceKind := resource.shape.kind

def touches (resource : StoredResource) (id : String) : Bool :=
  resource.shape.source == some id || resource.shape.target == some id

end StoredResource

inductive RecoveryStoreErrorReason where
  | invalidInput
  | identityReused
  | aliasPathLive
  | aliasPathCommitted
  | incidentLinks
  | aliasTargetNotLive
  | resourceImmutable
  | closed
  | fenced
  | retentionTooShort
  | lostClaim
  | invalidAdmission
  | asyncCallback
  deriving DecidableEq, Repr

structure RecoveryStoreError where
  reason : RecoveryStoreErrorReason
  message : String
  deriving DecidableEq, Repr

/-- How a callback may end without a result. -/
inductive Thrown where
  | store (error : RecoveryStoreError)
  /-- An error of the caller's own. -/
  | caller (message : String)
  /-- The callback does not return; its transaction stays open until the process ends. -/
  | hangs
  deriving DecidableEq, Repr

/-- What the store takes from its platform. -/
structure Platform where
  /-- Whether a text is JSON. -/
  parses : String → Bool
  /-- The hexadecimal digest of a text. -/
  sha256 : String → String
  randomUUID : ℕ → String
  randomUUID_injective : Function.Injective randomUUID
  /-- How many identities an allocation draws before it counts as hanging. -/
  patience : ℕ

def dayMs : ℤ := 86400000

def maxSafeInteger : ℤ := 9007199254740991

def requireText (value : String) (name : String) : Except RecoveryStoreError Unit :=
  check (value ≠ "") ⟨.invalidInput, name ++ " must be nonempty text"⟩

/-- The parser's own message is not modelled. -/
def requireJson (platform : Platform) (text : String) : Except Thrown Unit :=
  check (platform.parses text = true) (.caller "SyntaxError")

/-- Times that are not whole numbers are refused like those out of range. -/
def requireTime (time : ℤ) : Except RecoveryStoreError Unit :=
  check (0 ≤ time ∧ time ≤ maxSafeInteger)
    ⟨.invalidInput, "time must be nonnegative safe integer milliseconds"⟩

/-- Everything that an evaluation may read or write. -/
structure Tables where
  resources : Table StoredResource
  identities : Table ResourceKind
  /-- Bead targets by the alias path beneath the alias root. -/
  aliases : Table String
  installedTypes : Table String
  policy : Table String
  «namespace» : String
  nextRevision : ℕ
  nextIdentity : ℕ

def startsWithAlias (id : String) : Bool := "alias/".toList.isPrefixOf id.toList

/-- The alias path that an identity of the form `alias/path` occupies. -/
def aliasPathOf (id : String) : Option String :=
  if startsWithAlias id then some (String.ofList (id.toList.drop 6)) else none

namespace Tables

variable (tables : Tables)

def listResources : List StoredResource := tables.resources.toList.map Prod.snd

def incidentLinks (id : String) : List StoredResource :=
  tables.listResources.filter fun resource ↦ resource.touches id

def outgoingLinks (source : String) : List StoredResource :=
  tables.listResources.filter fun resource ↦ resource.shape.source == some source

def aliasLive (id : String) : Bool :=
  (aliasPathOf id).any fun path ↦ tables.aliases[path]?.isSome

/-- Whether the stored resource keeps its kind and its endpoints. -/
def immutableHolds (resource : StoredResource) : Bool :=
  tables.resources[resource.id]?.all fun previous ↦
    previous.kind == resource.kind && previous.shape.source == resource.shape.source &&
      previous.shape.target == resource.shape.target

def putResource (platform : Platform) (resource : StoredResource) : Except Thrown Tables := do
  match resource.shape with
  | .bead => pure ()
  | .link source target =>
    (requireText source "Link source").mapError .store
    (requireText target "Link target").mapError .store
  (requireText resource.id "resource id").mapError .store
  check (¬ (resource.id.toList.head? = some '/' ∨ resource.id.toList.getLast? = some '/'))
    (.store ⟨.invalidInput, "normalized local Resource ID required"⟩)
  requireJson platform resource.bodyJson
  check (tables.immutableHolds resource = true)
    (.store ⟨.resourceImmutable, "immutable Resource identity/endpoints changed"⟩)
  check (¬ (tables.resources[resource.id]?.isNone ∧ tables.identities[resource.id]?.isSome))
    (.store ⟨.identityReused, "committed Resource identity cannot be reused"⟩)
  check (¬ tables.aliasLive resource.id = true)
    (.store ⟨.aliasPathLive, "Bead identity collides with a live alias"⟩)
  pure { tables with
    identities := if tables.identities[resource.id]?.isSome then tables.identities
      else tables.identities.insert resource.id resource.kind
    resources := tables.resources.insert resource.id resource }

def deleteResource (id : String) : Except Thrown Tables := do
  check (tables.incidentLinks id = [])
    (.store ⟨.incidentLinks, "live incident Link prevents deletion"⟩)
  pure { tables with resources := tables.resources.erase id }

def putAlias (path beadId : String) : Except Thrown Tables := do
  (requireText path "alias path").mapError .store
  check (tables.identities["alias/" ++ path]? = none)
    (.store ⟨.aliasPathCommitted, "alias collides with committed Resource identity"⟩)
  check (tables.resources[beadId]?.map StoredResource.kind = some .bead)
    (.store ⟨.aliasTargetNotLive, "alias target must be a live Bead"⟩)
  pure { tables with aliases := tables.aliases.insert path beadId }

def deleteAlias (path : String) : Tables :=
  { tables with aliases := tables.aliases.erase path }

def putPolicy (platform : Platform) (name bodyJson : String) : Except Thrown Tables := do
  (requireText name "policy name").mapError .store
  requireJson platform bodyJson
  pure { tables with policy := tables.policy.insert name bodyJson }

def drawnIdentity (platform : Platform) (next : ℕ) : String :=
  platform.sha256 (tables.namespace ++ ":identity:" ++ toString next)

/-- Draw identities until one has not been committed and is no live alias. -/
def searchIdentity (platform : Platform) : ℕ → ℕ → Except Thrown (ℕ × String)
  | 0, _ => .error .hangs
  | patience + 1, drawn =>
    let next := drawn + 1
    let id := tables.drawnIdentity platform next
    if tables.identities[id]?.isSome || tables.aliasLive id then
      searchIdentity platform patience next
    else .ok (next, id)

def allocateResourceId (platform : Platform) : Except Thrown (Tables × String) := do
  let (next, id) ← tables.searchIdentity platform platform.patience tables.nextIdentity
  pure ({ tables with nextIdentity := next }, id)

def allocateRevision (platform : Platform) : Tables × String :=
  let next := tables.nextRevision + 1
  ({ tables with nextRevision := next },
    platform.sha256 (tables.namespace ++ ":" ++ toString next))

end Tables

end Bdp.Recovery
