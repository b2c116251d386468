import Bdp.Library.Table
import Bdp.Retained.SemanticIdentity

/-!
# Captured configuration

What a retained store captures when it is opened: the navigation of its Scope, the store format,
the text codec, the clock format and the source of identifiers. `canonical` stands for the
comparison of a URI with its own canonical creation identity in the Scope.
-/

namespace Bdp.Retained

structure Navigation where
  scope : String
  /-- Base of the alias namespace. -/
  aliases : String
  /-- The event collection, the source that every fact names. -/
  events : String
  /-- Every captured navigation address and route base. -/
  addresses : List String
  /-- `canonicalCreatedId scope id === id` -/
  canonical : String → Bool

namespace Navigation

def aliasPrefix (navigation : Navigation) : String :=
  if navigation.aliases.endsWith "/" then navigation.aliases else navigation.aliases ++ "/"

/-- Membership in the captured alias namespace. -/
def contains (navigation : Navigation) (uri : String) : Bool :=
  uri.startsWith navigation.aliasPrefix && navigation.canonical uri

end Navigation

/-- Formats 5, 6 and 7: singleton operations, atomic batches, historical updates. -/
inductive StoreFormat where
  | singleton
  | batch
  | historical
  deriving DecidableEq, Repr

/-- The places that draw a random identifier. -/
inductive UuidPurpose where
  | identity
  | revision
  | event
  | transaction
  | boundary
  | cursor
  deriving DecidableEq, Repr

/-- Fresh identifiers: no two draws give the same text, and none is empty. -/
structure UuidSource where
  uuid : UuidPurpose → ℕ → String
  uuid_injective : ∀ {purpose purpose' index index'},
    uuid purpose index = uuid purpose' index' → purpose = purpose' ∧ index = index'
  uuid_nonempty : ∀ purpose index, uuid purpose index ≠ ""

theorem UuidSource.uuid_inj (source : UuidSource) {purpose : UuidPurpose} {index index' : ℕ} :
    source.uuid purpose index = source.uuid purpose index' ↔ index = index' :=
  ⟨fun h ↦ (source.uuid_injective h).2, fun h ↦ h ▸ rfl⟩

/-- Text of an instant and the check that a text denotes one. -/
structure ClockFormat where
  toISOString : ℕ → String
  parses : String → Bool
  toISOString_nonempty : ∀ time, toISOString time ≠ ""
  parses_toISOString : ∀ time, parses (toISOString time) = true

structure StoreConfiguration where
  navigation : Navigation
  format : StoreFormat
  referenceCore : Bool
  codec : JsonCodec ℚ
  uuids : UuidSource
  clockFormat : ClockFormat
  /-- The syntax check of an HTTP identity. -/
  httpUri : String → Bool
  /-- Historical updates require the reference Core composition. -/
  historical_referenceCore : format = .historical → referenceCore = true
  /-- An allocated identity is canonical. -/
  canonical_allocated : ∀ index,
    navigation.canonical (navigation.scope ++ uuids.uuid .identity index) = true

namespace StoreConfiguration

def batchMode (config : StoreConfiguration) : Bool := config.format == .batch

def historicalMode (config : StoreConfiguration) : Bool := config.format == .historical

/-- Navigation addresses, and the protocol namespaces of the reference Core. -/
def isReserved (config : StoreConfiguration) (uri : String) : Bool :=
  config.navigation.addresses.contains uri ||
    (config.referenceCore &&
      (uri == config.navigation.scope ++ "bdp" ||
        uri.startsWith (config.navigation.scope ++ "bdp/") ||
        uri == config.navigation.scope ++ "sys" ||
        uri.startsWith (config.navigation.scope ++ "sys/")))

def serialized (config : StoreConfiguration) (value : Json) : String := config.codec.stringify value

end StoreConfiguration

end Bdp.Retained
