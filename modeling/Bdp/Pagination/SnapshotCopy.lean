import Bdp.Library.Utf8
import Bdp.Pagination.Engine

/-!
# The copy of a snapshot

A snapshot keeps its own copy of the items of a read. The walk reads own data descriptors, one job
at a time, marks the objects that it visits, and charges a budget of bytes and nodes.
-/

namespace Bdp.Pagination

open CodeUnits

/-- The text of a finite number. -/
structure NumberText where
  text : Text
  ascii : ∀ unit ∈ text, unit < 0x80
  deriving DecidableEq

inductive Primitive where
  | null
  | boolean (value : Bool)
  | string (value : Text)
  | number (value : NumberText)
  deriving DecidableEq

/-- A value of the program: an object is known by its address. -/
inductive Value (α : Type) where
  | primitive (value : Primitive)
  | nonFinite
  | nonJson
  | object (address : α)
  deriving DecidableEq

inductive Prototype where
  | arrayPrototype
  | objectPrototype
  | null
  | other
  deriving DecidableEq, Repr

inductive Descriptor (α : Type) where
  | data (value : Value α)
  | accessor
  deriving DecidableEq

/-- What the walk can see of an object. The keys are its own enumerable string keys in the order of
their enumeration, the symbols tell for each own symbol whether it is enumerable. -/
structure JsObject (α : Type) where
  isProxy : Bool
  prototype : Prototype
  isArray : Bool
  symbols : List Bool
  length : ℕ
  keys : List Text
  property : Text → Option (Descriptor α)

/-- `Object.defineProperty` of an enumerable data property. -/
def JsObject.define {α : Type} (object : JsObject α) (key : Text) (value : Value α) : JsObject α :=
  { object with
    keys := object.keys ++ [key]
    property := Function.update object.property key (some (.data value)) }

structure SnapshotBudget where
  remainingBytes : ℕ
  remainingNodes : ℕ
  retainedBytes : ℕ
  retainedNodes : ℕ
  deriving DecidableEq, Repr

/-- What the walk throws: the capacity is exceeded, or anything else. -/
inductive SnapshotFailure where
  | capacityExceeded
  | error (message : String)
  deriving DecidableEq, Repr

namespace SnapshotBudget

/-- The source's `consumeSnapshotBytes`. -/
def consumeBytes (budget : SnapshotBudget) (amount : ℕ) : Except SnapshotFailure SnapshotBudget :=
  if budget.remainingBytes < amount then .error .capacityExceeded
  else .ok { budget with
    remainingBytes := budget.remainingBytes - amount
    retainedBytes := budget.retainedBytes + amount }

/-- The source's `consumeSnapshotNodes`. -/
def consumeNodes (budget : SnapshotBudget) (amount : ℕ) : Except SnapshotFailure SnapshotBudget :=
  if budget.remainingNodes < amount then .error .capacityExceeded
  else .ok { budget with
    remainingNodes := budget.remainingNodes - amount
    retainedNodes := budget.retainedNodes + amount }

def consumeEach (budget : SnapshotBudget) (amounts : List ℕ) :
    Except SnapshotFailure SnapshotBudget :=
  amounts.foldlM consumeBytes budget

end SnapshotBudget

/-- The charges of the loop of `consumeJsonStringBytes`. -/
def characterBytes : Text → List ℕ
  | [] => []
  | code :: rest =>
    if code = 0x22 ∨ code = 0x5c ∨ code = 0x08 ∨ code = 0x09 ∨ code = 0x0a ∨ code = 0x0c ∨
        code = 0x0d then
      2 :: characterBytes rest
    else if code ≤ 0x1f ∨ (0xd800 ≤ code ∧ code ≤ 0xdfff ∧
        ¬ (code ≤ 0xdbff ∧ (rest.head?.any isLow) = true)) then
      6 :: characterBytes rest
    else if code ≤ 0x7f then 1 :: characterBytes rest
    else if code ≤ 0x7ff then 2 :: characterBytes rest
    else if 0xd800 ≤ code ∧ code ≤ 0xdbff then
      match rest with
      | [] => [4]
      | _ :: after => 4 :: characterBytes after
    else 3 :: characterBytes rest

/-- The charges of `consumeJsonStringBytes`. -/
def jsonStringBytes (value : Text) : List ℕ := 2 :: characterBytes value

/-- The charges of a value that is no object. -/
def Primitive.charges : Primitive → List ℕ
  | .null => [4]
  | .boolean value => [if value then 4 else 5]
  | .string value => jsonStringBytes value
  | .number value => [value.text.length]

inductive SnapshotState where
  | visiting
  | done
  deriving DecidableEq, Repr

/-- Where a job assigns its copy. -/
inductive Slot (α : Type) where
  | root
  | entry (output : α) (key : Text)
  deriving DecidableEq

inductive SnapshotJob (α : Type) where
  | value (input : Value α) (slot : Slot α)
  | finish (input : α)
  deriving DecidableEq

/-- A copy in the making. -/
structure Output (α : Type) where
  object : JsObject α
  frozen : Bool

/-- The state of the walk. The copy of an object goes by the address of the object. -/
structure Walk (α : Type) where
  budget : SnapshotBudget
  states : α → Option SnapshotState
  copies : α → Option (Output α)
  jobs : List (SnapshotJob α)
  root : Option (Value α)

variable {α : Type} [DecidableEq α]

def indexText (index : ℕ) : Text := ascii (Nat.toDigits 10 index)

namespace JsObject

/-- The check of `Object.getPrototypeOf`. -/
def plainPrototype (source : JsObject α) : Bool :=
  if source.isArray then source.prototype = .arrayPrototype
  else source.prototype = .objectPrototype ∨ source.prototype = .null

/-- The names of the entries that are copied. -/
def entryKeys (source : JsObject α) : List Text :=
  if source.isArray then (List.range source.length).map indexText else source.keys

def bracketBytes (source : JsObject α) : ℕ :=
  if source.isArray then 2 + (source.length - 1) else 2 + (source.keys.length - 1)

/-- The bytes of the key of a member and of its colon. -/
def keyCharges (source : JsObject α) (key : Text) : List ℕ :=
  if source.isArray then [] else jsonStringBytes key ++ [1]

/-- A new copy: `new Array(arrayLength)` or `{}`. -/
def emptyCopy (source : JsObject α) : JsObject α where
  isProxy := false
  prototype := if source.isArray then .arrayPrototype else .objectPrototype
  isArray := source.isArray
  symbols := []
  length := if source.isArray then source.length else 0
  keys := []
  property := fun _ ↦ none

/-- The jobs of the entries, the first on top: the loop pushes them from the last. -/
def pushEntries (source : JsObject α) (address : α) :
    List Text → SnapshotBudget → List (SnapshotJob α) →
      Except SnapshotFailure (SnapshotBudget × List (SnapshotJob α))
  | [], budget, jobs => .ok (budget, jobs)
  | key :: keys, budget, jobs => do
    let (budget, jobs) ← source.pushEntries address keys budget jobs
    let budget ← budget.consumeEach (source.keyCharges key)
    match source.property key with
    | some (.data value) => .ok (budget, .value value (.entry address key) :: jobs)
    | some .accessor => .error (.error "accessor")
    | none => .error (.error "accessor")

end JsObject

namespace Walk

def assign (walk : Walk α) (slot : Slot α) (value : Value α) : Walk α :=
  match slot with
  | .root => { walk with root := some value }
  | .entry output key =>
    { walk with
      copies := fun address ↦
        if address = output then
          (walk.copies address).map fun copy ↦ { copy with object := copy.object.define key value }
        else walk.copies address }

def setState (walk : Walk α) (address : α) (state : SnapshotState) : Walk α :=
  { walk with states := Function.update walk.states address (some state) }

/-- `Object.freeze` of a copy. -/
def freeze (walk : Walk α) (address : α) : Walk α :=
  { walk with
    copies := fun other ↦
      if other = address then (walk.copies other).map fun copy ↦ { copy with frozen := true }
      else walk.copies other }

/-- A job whose value is an object not seen before. -/
def enter (walk : Walk α) (address : α) (source : JsObject α) (slot : Slot α) :
    Except SnapshotFailure (Walk α) :=
  if source.plainPrototype = false then .error (.error "non-plain object")
  else if source.symbols.any id then .error (.error "symbol property")
  else if source.isArray ∧ walk.budget.remainingNodes < source.length then
    .error .capacityExceeded
  else if walk.budget.remainingNodes < source.keys.length then .error .capacityExceeded
  else do
    let budget ← walk.budget.consumeNodes source.keys.length
    let entered := { walk.setState address .visiting with
      budget, copies := Function.update walk.copies address (some ⟨source.emptyCopy, false⟩) }
    let assigned := entered.assign slot (.object address)
    if source.isArray ∧ source.keys.length ≠ source.length then
      .error (.error "sparse or extended array")
    else do
      let budget ← budget.consumeBytes source.bracketBytes
      let (budget, jobs) ← source.pushEntries address source.entryKeys budget
        (.finish address :: walk.jobs)
      .ok { assigned with budget, jobs }

/-- The body of the loop for a job that is not on the stack any more. -/
def step (heap : α → JsObject α) (walk : Walk α) : SnapshotJob α → Except SnapshotFailure (Walk α)
  | .finish input => .ok ((walk.freeze input).setState input .done)
  | .value (.primitive value) slot => do
    let budget ← walk.budget.consumeEach value.charges
    .ok ({ walk with budget }.assign slot (.primitive value))
  | .value .nonFinite _ => .error (.error "non-finite number")
  | .value .nonJson _ => .error (.error "non-JSON value")
  | .value (.object address) slot =>
    if (heap address).isProxy then .error (.error "non-JSON value")
    else
      match walk.states address with
      | some .visiting => .error (.error "cycle")
      | some .done =>
        match walk.copies address with
        | none => .error (.error "snapshot state")
        | some _ => .ok (walk.assign slot (.object address))
      | none => walk.enter address (heap address) slot

/-- The loop, for at most as many jobs as the fuel allows. -/
def run (heap : α → JsObject α) : ℕ → Walk α → Except SnapshotFailure (Walk α)
  | 0, walk => .ok walk
  | fuel + 1, walk =>
    match walk.jobs with
    | [] => .ok walk
    | job :: jobs => do
      let walk ← step heap { walk with jobs } job
      run heap fuel walk

def start (input : Value α) (byteCapacity nodeCapacity : ℕ) : Walk α where
  budget := ⟨byteCapacity, nodeCapacity, 0, 0⟩
  states := fun _ ↦ none
  copies := fun _ ↦ none
  jobs := [.value input .root]
  root := none

end Walk

/-- The `catch` clause of `snapshotJson`. -/
def SnapshotFailure.localError : SnapshotFailure → ReadPaginationError
  | .capacityExceeded =>
    Pagination.localError .capacityExceeded "pagination snapshot capacity is exhausted"
  | .error _ =>
    Pagination.localError .invalidSnapshot
      "pagination items must contain plain, acyclic JSON data properties"

/-- The walk of `snapshotJson`. A new object takes a node for each of its keys, so twice the
capacity bounds the number of jobs. -/
def snapshotWalk (heap : α → JsObject α) (input : Value α) (byteCapacity nodeCapacity : ℕ) :
    Except SnapshotFailure (Walk α) := do
  let start := Walk.start input byteCapacity nodeCapacity
  let budget ← start.budget.consumeNodes 1
  Walk.run heap (2 * nodeCapacity) { start with budget }

/-- The value of a copy with the objects that it refers to, and what it takes of the budget. -/
structure SnapshotValue (α : Type) where
  value : Option (Value α)
  copies : α → Option (Output α)
  retainedBytes : ℕ
  retainedNodes : ℕ

def snapshotJson (heap : α → JsObject α) (input : Value α) (byteCapacity nodeCapacity : ℕ) :
    Except ReadPaginationError (SnapshotValue α) :=
  match snapshotWalk heap input byteCapacity nodeCapacity with
  | .error failure => .error failure.localError
  | .ok walk =>
    .ok ⟨walk.root, walk.copies, walk.budget.retainedBytes, walk.budget.retainedNodes⟩

end Bdp.Pagination
