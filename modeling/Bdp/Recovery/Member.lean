import Bdp.Recovery.Tables

/-!
# Member evaluation

The key rows of the recovery store and the transaction that an evaluation runs over its tables. An
evaluation is any synchronous callback: it calls the transaction facade, sees each result or error,
and ends in a decision or a throw.
-/

namespace Bdp.Recovery

inductive Effect where
  | success
  | failure
  deriving DecidableEq, Repr

structure RetainedKey where
  semanticIdentityJson : String
  fingerprint : String
  resolutionsJson : String
  outcomeJson : String
  effect : Effect
  completedAt : ℤ
  retainUntil : ℤ
  deriving DecidableEq, Repr

inductive KeyState where
  | unknown
  | claimed (attemptId : String)
  | retained (outcome : RetainedKey)
  | expired (fingerprint resolutionsJson : String)
  deriving DecidableEq, Repr

/-- A stored row; a key without a row is unknown. -/
structure KeyRow where
  principal : String
  key : String
  state : KeyState
  known : state ≠ .unknown
  deriving DecidableEq

namespace KeyRow

def named (row : KeyRow) (principal key : String) : Bool :=
  row.principal == principal && row.key == key

def claim (principal key attemptId : String) : KeyRow :=
  { principal, key, state := .claimed attemptId, known := nofun }

def isClaimed (row : KeyRow) : Bool :=
  match row.state with
  | .claimed _ => true
  | _ => false

/-- A success that is retained or expired: its effects are committed. -/
def settled (row : KeyRow) : Bool :=
  match row.state with
  | .retained outcome => outcome.effect == .success
  | .expired _ _ => true
  | _ => false

end KeyRow

def keyState (rows : List KeyRow) (principal key : String) : KeyState :=
  match rows.find? fun row ↦ row.named principal key with
  | some row => row.state
  | none => .unknown

structure MemberOutcome where
  semanticIdentityJson : String
  resolutionsJson : String
  outcomeJson : String
  effect : Effect
  completedAt : ℤ
  retainUntil : ℤ
  deriving DecidableEq, Repr

inductive MemberDecision where
  | retain (outcome : MemberOutcome)
  | release
  deriving DecidableEq, Repr

inductive MemberCall where
  | resource (id : String)
  | resources
  | incidentLinks (id : String)
  | outgoingLinks (source : String)
  | alias (path : String)
  | identityWasCommitted (id : String)
  | installedType (id : String)
  | policy (name : String)
  | key (principal key : String)
  | putResource (resource : StoredResource)
  | deleteResource (id : String)
  | putAlias (path beadId : String)
  | deleteAlias (path : String)
  | putPolicy (name bodyJson : String)
  | allocateRevision
  | allocateResourceId (kind : ResourceKind)
  deriving DecidableEq

inductive MemberReply where
  | resource (found : Option StoredResource)
  | resources (found : List StoredResource)
  | text (found : Option String)
  | flag (value : Bool)
  | key (state : KeyState)
  | allocated (text : String)
  | done
  deriving DecidableEq

/-- What a call answers, and the tables that it leaves. -/
def MemberCall.perform (platform : Platform) (rows : List KeyRow) (tables : Tables) :
    MemberCall → Except Thrown (Tables × MemberReply)
  | .resource id => .ok (tables, .resource tables.resources[id]?)
  | .resources => .ok (tables, .resources tables.listResources)
  | .incidentLinks id => .ok (tables, .resources (tables.incidentLinks id))
  | .outgoingLinks source => .ok (tables, .resources (tables.outgoingLinks source))
  | .alias path => .ok (tables, .text tables.aliases[path]?)
  | .identityWasCommitted id => .ok (tables, .flag tables.identities[id]?.isSome)
  | .installedType id => .ok (tables, .text tables.installedTypes[id]?)
  | .policy name => .ok (tables, .text tables.policy[name]?)
  | .key principal name => .ok (tables, .key (keyState rows principal name))
  | .putResource written => (tables.putResource platform written).map (·, .done)
  | .deleteResource id => (tables.deleteResource id).map (·, .done)
  | .putAlias path beadId => (tables.putAlias path beadId).map (·, .done)
  | .deleteAlias path => .ok (tables.deleteAlias path, .done)
  | .putPolicy name bodyJson => (tables.putPolicy platform name bodyJson).map (·, .done)
  | .allocateRevision =>
    .ok ((tables.allocateRevision platform).1, .allocated (tables.allocateRevision platform).2)
  | .allocateResourceId _ =>
    (tables.allocateResourceId platform).map fun allocated ↦ (allocated.1, .allocated allocated.2)

/-- A callback over the transaction facade; it may catch what a call throws. -/
inductive MemberEvaluation where
  | decide (decision : MemberDecision)
  | throw (thrown : Thrown)
  | call (operation : MemberCall) (next : Except Thrown MemberReply → MemberEvaluation)

/-- Run the callback. A call that throws leaves the tables as they are. -/
def MemberEvaluation.run (platform : Platform) (rows : List KeyRow) :
    MemberEvaluation → Tables → Except Thrown (Tables × MemberDecision)
  | .decide decision, tables => .ok (tables, decision)
  | .throw thrown, _ => .error thrown
  | .call operation next, tables =>
    match operation.perform platform rows tables with
    | .ok (after, reply) => (next (.ok reply)).run platform rows after
    | .error .hangs => .error .hangs
    | .error thrown => (next (.error thrown)).run platform rows tables

end Bdp.Recovery
