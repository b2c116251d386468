import Mathlib

/-!
# Continuation registry

The capabilities that a client holds to continue paged reads. An available entry is taken out by a
reservation, which holds it as a lease until the page is committed or the lease is restored. The
URLs that one traversal has been issued are its history, a set that its entry and its lease share
by reference: the registry keeps a heap of histories, and a lineage is an address in it.
-/

namespace Bdp.Client

abbrev AbsoluteHttpUrl := String

def MAXIMUM_CONTINUATION_CONTEXTS : ℤ := 1024

def MAXIMUM_CONTINUATION_HISTORY_ENTRIES : ℤ := 10000

inductive HistoryResource where
  | bead
  | link
  deriving DecidableEq, Repr

inductive CollectionName where
  | beads
  | links
  | types
  deriving DecidableEq, Repr

inductive LinkDirection where
  | inbound
  | outbound
  | both
  deriving DecidableEq, Repr

inductive ContinuationContext where
  | historyVersions (resource : HistoryResource) (subject : AbsoluteHttpUrl) (limit : Option ℕ)
  | collection (collection : CollectionName)
  | beadLinks (bead : AbsoluteHttpUrl) (direction : LinkDirection)
  deriving DecidableEq, Repr

def sameContinuationContext : ContinuationContext → ContinuationContext → Bool
  | .historyVersions resource subject limit, .historyVersions resource' subject' limit' =>
    resource == resource' && subject == subject' && limit == limit'
  | .collection collection, .collection collection' => collection == collection'
  | .beadLinks bead direction, .beadLinks bead' direction' =>
    bead == bead' && direction == direction'
  | _, _ => false

theorem sameContinuationContext_iff {left right : ContinuationContext} :
    sameContinuationContext left right = true ↔ left = right := by
  cases left <;> cases right <;> simp [sameContinuationContext, and_assoc]

inductive RegistryError where
  | protocol (message : String)
  | ownership (message : String)
  | capacity (message : String)
  deriving DecidableEq, Repr

/-- A URL that may be read once more, under the owner it was issued to. -/
structure Capability (Scope : Type) where
  url : AbsoluteHttpUrl
  context : ContinuationContext
  owner : Option Scope
  /-- The address of the history that the traversal shares. -/
  lineage : ℕ
  deriving DecidableEq, Repr

/-- A reserved capability; two leases are the same object when their identities agree. -/
structure ContinuationLease (Scope : Type) extends Capability Scope where
  identity : ℕ
  deriving DecidableEq, Repr

/-- Entries of one URL stand in the order of their array. -/
structure ContinuationRegistry (Scope : Type) where
  entries : List (Capability Scope)
  leases : List (ContinuationLease Scope)
  size : ℤ
  historySize : ℤ
  histories : ℕ → Finset AbsoluteHttpUrl
  nextLineage : ℕ
  nextLease : ℕ

namespace ContinuationRegistry

variable {Scope : Type} [DecidableEq Scope]

def empty : ContinuationRegistry Scope :=
  { entries := [], leases := [], size := 0, historySize := 0, histories := fun _ ↦ ∅
    nextLineage := 0, nextLease := 0 }

/-- Take the first entry of the URL that the owner may use and that matches. -/
def reserve (registry : ContinuationRegistry Scope) (url : AbsoluteHttpUrl) (owner : Option Scope)
    (isMatch : ContinuationContext → Bool) :
    ContinuationRegistry Scope × Option (ContinuationLease Scope) :=
  let wanted (entry : Capability Scope) : Bool :=
    entry.url == url && (entry.owner == owner && isMatch entry.context)
  match registry.entries.find? wanted with
  | none => (registry, none)
  | some entry =>
    let lease : ContinuationLease Scope := { entry with identity := registry.nextLease }
    ({ registry with
        entries := registry.entries.eraseP wanted
        leases := registry.leases ++ [lease]
        nextLease := registry.nextLease + 1 }, some lease)

/-- Another direction of the same Bead is live for the owner at the URL. -/
def ambiguousDirection (context : ContinuationContext) (owner : Option Scope)
    (candidate : Capability Scope) : Bool :=
  candidate.owner == owner &&
    match candidate.context, context with
    | .beadLinks bead direction, .beadLinks bead' direction' =>
      bead == bead' && direction != direction'
    | _, _ => false

def isHistory : ContinuationContext → Bool
  | .historyVersions _ _ _ => true
  | _ => false

/-- Whether an entry or a lease stands at the URL with the property. -/
def conflicts (registry : ContinuationRegistry Scope) (lease : Option (ContinuationLease Scope))
    (url : AbsoluteHttpUrl) (context : ContinuationContext) (owner : Option Scope) : Bool :=
  isHistory context &&
    (registry.entries.any (fun candidate ↦
        candidate.url == url && (candidate.owner == owner && isHistory candidate.context)) ||
      registry.leases.any fun candidate ↦ some candidate != lease &&
        (candidate.owner == owner && (candidate.url == url && isHistory candidate.context)))

def ambiguous (registry : ContinuationRegistry Scope) (url : AbsoluteHttpUrl)
    (context : ContinuationContext) (owner : Option Scope) : Bool :=
  registry.entries.any (fun candidate ↦
      candidate.url == url && ambiguousDirection context owner candidate) ||
    registry.leases.any fun candidate ↦
      candidate.url == url && ambiguousDirection context owner candidate.toCapability

/-- Why a commit throws, if it does. Nothing has been written when it does. -/
def commitError (registry : ContinuationRegistry Scope) (lease : Option (ContinuationLease Scope))
    (next : Option AbsoluteHttpUrl) (context : ContinuationContext) (owner : Option Scope) :
    Option RegistryError :=
  if lease.any fun lease ↦ decide (lease ∉ registry.leases) then
    some (.protocol "the continuation lease is no longer active")
  else if lease.any fun lease ↦ !sameContinuationContext lease.context context then
    some (.protocol "the continuation context changed")
  else if lease.any fun lease ↦ lease.owner != owner then
    some (.protocol "the continuation owner changed")
  else if next.any fun url ↦ lease.any fun lease ↦ lease.url == url then
    some (.protocol "the response repeated its continuation URL")
  else if next.any fun url ↦ lease.any fun lease ↦
      decide (url ∈ registry.histories lease.lineage) then
    some (.protocol "the response cycled to an earlier continuation URL")
  else if next.any fun url ↦ registry.ambiguous url context owner then
    some (.protocol "the continuation URL is ambiguous across incident-Link directions")
  else if next.any fun url ↦ registry.conflicts lease url context owner then
    some (.ownership ("independent History traversals sharing a continuation URL " ++
      "require distinct continuation scopes"))
  else if MAXIMUM_CONTINUATION_CONTEXTS <
      registry.size - (if lease.isSome then 1 else 0) + (if next.isSome then 1 else 0) then
    some (.capacity "the continuation registry reached its local bound")
  else if MAXIMUM_CONTINUATION_HISTORY_ENTRIES <
      registry.historySize - (if next.isNone then
        ((lease.map fun lease ↦ ((registry.histories lease.lineage).card : ℤ)).getD 0) else 0) +
        (if next.isSome then 1 else 0) then
    some (.capacity "the continuation history reached its local bound")
  else none

/-- Drop the consumed lease; a traversal that ends releases its history. -/
def consume (registry : ContinuationRegistry Scope) (lease : Option (ContinuationLease Scope))
    (next : Option AbsoluteHttpUrl) : ContinuationRegistry Scope :=
  match lease with
  | none => registry
  | some lease =>
    { registry with
      leases := registry.leases.erase lease
      size := registry.size - 1
      historySize := if next.isNone then
        registry.historySize - (registry.histories lease.lineage).card else registry.historySize }

/-- Add the next URL to the history of the traversal and make it available. -/
def issue (registry : ContinuationRegistry Scope) (lease : Option (ContinuationLease Scope))
    (url : AbsoluteHttpUrl) (context : ContinuationContext) (owner : Option Scope) :
    ContinuationRegistry Scope :=
  let lineage := (lease.map fun lease ↦ lease.lineage).getD registry.nextLineage
  let history := if lease.isSome then registry.histories lineage else ∅
  { registry with
    entries := registry.entries ++ [{ url, context, owner, lineage }]
    size := registry.size + 1
    historySize := registry.historySize + 1
    histories := Function.update registry.histories lineage (insert url history)
    nextLineage := if lease.isSome then registry.nextLineage else registry.nextLineage + 1 }

def commit (registry : ContinuationRegistry Scope) (lease : Option (ContinuationLease Scope))
    (next : Option AbsoluteHttpUrl) (context : ContinuationContext) (owner : Option Scope) :
    ContinuationRegistry Scope × Option RegistryError :=
  match registry.commitError lease next context owner with
  | some error => (registry, some error)
  | none =>
    let consumed := registry.consume lease next
    match next with
    | none => (consumed, none)
    | some url => (consumed.issue lease url context owner, none)

/-- An active lease becomes available again; any other lease is ignored. -/
def restore (registry : ContinuationRegistry Scope) (lease : Option (ContinuationLease Scope)) :
    ContinuationRegistry Scope :=
  match lease with
  | none => registry
  | some lease =>
    if lease ∈ registry.leases then
      { registry with
        leases := registry.leases.erase lease
        entries := registry.entries ++ [lease.toCapability] }
    else registry

def clear (registry : ContinuationRegistry Scope) : ContinuationRegistry Scope :=
  { registry with entries := [], leases := [], size := 0, historySize := 0 }

/-- Forget the entries of an owner; its leases stay active. -/
def forgetAvailable (registry : ContinuationRegistry Scope) (owner : Scope) :
    ContinuationRegistry Scope :=
  let forgotten := registry.entries.filter fun entry ↦ entry.owner == some owner
  { registry with
    entries := registry.entries.filter fun entry ↦ entry.owner != some owner
    size := registry.size - forgotten.length
    historySize := registry.historySize -
      (forgotten.map fun entry ↦ ((registry.histories entry.lineage).card : ℤ)).sum }

end ContinuationRegistry

/-- A call of the registry, with any lease at all. -/
inductive RegistryCall (Scope : Type) where
  | reserve (url : AbsoluteHttpUrl) (owner : Option Scope) (isMatch : ContinuationContext → Bool)
  | commit (lease : Option (ContinuationLease Scope)) (next : Option AbsoluteHttpUrl)
      (context : ContinuationContext) (owner : Option Scope)
  | restore (lease : Option (ContinuationLease Scope))
  | forgetAvailable (owner : Scope)
  | clear

namespace ContinuationRegistry

variable {Scope : Type} [DecidableEq Scope]

def call (registry : ContinuationRegistry Scope) : RegistryCall Scope → ContinuationRegistry Scope
  | .reserve url owner isMatch => (registry.reserve url owner isMatch).1
  | .commit lease next context owner => (registry.commit lease next context owner).1
  | .restore lease => registry.restore lease
  | .forgetAvailable owner => registry.forgetAvailable owner
  | .clear => registry.clear

/-- The capability that a call issues: an accepted commit with a next URL issues one. -/
def issued (registry : ContinuationRegistry Scope) : RegistryCall Scope → List (Capability Scope)
  | .commit lease (some url) context owner =>
    if (registry.commitError lease (some url) context owner).isNone then
      [{ url, context, owner
         lineage := (lease.map fun lease ↦ lease.lineage).getD registry.nextLineage }]
    else []
  | _ => []

/-- Every capability that is available or held by an active lease. -/
def live (registry : ContinuationRegistry Scope) : List (Capability Scope) :=
  registry.entries ++ registry.leases.map ContinuationLease.toCapability

/-- The registry after a list of calls, with every capability issued on the way. -/
inductive Run : ContinuationRegistry Scope → List (Capability Scope) → Prop where
  | empty : Run .empty []
  | called {registry : ContinuationRegistry Scope} {trace : List (Capability Scope)}
      (call : RegistryCall Scope) (run : Run registry trace) :
      Run (registry.call call) (trace ++ registry.issued call)

end ContinuationRegistry

end Bdp.Client
