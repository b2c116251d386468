import Bdp.Library.Meter

/-!
# Type conformance index

The Type Descriptors of one installation are indexed by identity. Every declared parent has to be
installed and to describe the same kind, and no Type conforms to itself through others. The index
holds, for each Type, the set of the Types it conforms to, computed by a depth-first walk with a
stack of frames. Five counters measure the work; administrative limits bound them.
-/

namespace Bdp.Conformance

/-- The counters of the index, in the order in which their limits are checked. -/
inductive Counter
  | nodes
  | edges
  | depth
  | memberships
  | unionAttempts
  deriving DecidableEq, Repr

/-- What a Type describes. -/
inductive Describes
  | bead
  | link
  deriving DecidableEq, Repr

structure TypeDescriptor where
  id : String
  conformsTo : List String
  describes : Describes
  deriving DecidableEq, Repr

inductive Failure
  | invalidLimit (key : Counter)
  | limitExceeded (key : Counter)
  | duplicate (id : String)
  | missingParent (id parent : String)
  | boundary (id : String) (describes other : Describes)
  | cycle (parent : String)
  | missingParentSet
  /-- The walk was cut off; this stands for a loop that goes on. -/
  | unfinished
  deriving DecidableEq, Repr

namespace Counter

def name : Counter → String
  | nodes => "nodes"
  | edges => "edges"
  | depth => "depth"
  | memberships => "memberships"
  | unionAttempts => "unionAttempts"

def keys : List Counter := [nodes, edges, depth, memberships, unionAttempts]

end Counter

def Describes.name : Describes → String
  | bead => "bead"
  | link => "link"

def Failure.message : Failure → String
  | invalidLimit key => "invalid Type conformance " ++ key.name ++ " limit"
  | limitExceeded key => "Type conformance " ++ key.name ++ " limit exceeded"
  | duplicate id => "duplicate Type Descriptor '" ++ id ++ "'"
  | missingParent id parent =>
    "Type Descriptor '" ++ id ++ "' has missing parent '" ++ parent ++ "'"
  | boundary id describes other =>
    "Type Descriptor '" ++ id ++ "' crosses the " ++ describes.name ++ "/" ++ other.name ++
      " boundary"
  | cycle parent => "Type conformance graph contains a cycle at '" ++ parent ++ "'"
  | missingParentSet => "missing parent Type conformance set"
  | unfinished => ""

abbrev Administered := Metered Counter Failure

/-- `Number.MAX_SAFE_INTEGER`. -/
def maxSafeInteger : ℤ := 2 ^ 53 - 1

/-- A limit is a safe integer and not negative. -/
def ValidLimit (limit : ℚ) : Prop := limit.den = 1 ∧ 0 ≤ limit.num ∧ limit.num ≤ maxSafeInteger

instance (limit : ℚ) : Decidable (ValidLimit limit) :=
  inferInstanceAs (Decidable (_ ∧ _ ∧ _))

/-- The limits as natural numbers, once every one is seen to be valid. -/
def checkLimits (inputLimits : Counter → ℚ) : Except Failure (Counter → ℕ) := do
  forM Counter.keys fun key ↦ check (ValidLimit (inputLimits key)) (.invalidLimit key)
  return fun key ↦ (inputLimits key).num.toNat

def charge (key : Counter) : Administered Unit := Metered.charge key (.limitExceeded key)

def checkDepth (depth : ℕ) : Administered Unit :=
  Metered.raise .depth depth (.limitExceeded .depth)

section Descriptors

/-- The descriptors by identity, in insertion order. -/
abbrev ById := List TypeDescriptor

def ById.get (byId : ById) (id : String) : Option TypeDescriptor := byId.find? (·.id = id)

def addDescriptor (byId : ById) (descriptor : TypeDescriptor) : Administered ById := do
  Metered.lift (check (byId.get descriptor.id = none) (.duplicate descriptor.id))
  charge .nodes
  return byId ++ [descriptor]

/-- The parents of a Type; none for one that is not installed. -/
def ById.parents (byId : ById) (id : String) : List String :=
  ((byId.get id).map TypeDescriptor.conformsTo).getD []

def checkParent (byId : ById) (descriptor : TypeDescriptor) (parentId : String) :
    Administered Unit := do
  charge .edges
  let parent ← Metered.lift (require (byId.get parentId) (.missingParent descriptor.id parentId))
  Metered.lift (check (parent.describes = descriptor.describes)
    (.boundary descriptor.id descriptor.describes parent.describes))

end Descriptors

section Walk

/-- A Type on the stack, with the number of its parents already looked at. -/
structure Frame where
  id : String
  parents : List String
  next : ℕ

/-- The state of the walk; the top of the stack comes first. -/
structure Walk where
  effectiveTypes : String → Option (List String)
  depths : String → Option ℕ
  visiting : Finset String
  frames : List Frame

def Walk.empty : Walk := ⟨fun _ ↦ none, fun _ ↦ none, ∅, []⟩

def Walk.enter (byId : ById) (id : String) (walk : Walk) : Walk :=
  { walk with
    visiting := insert id walk.visiting
    frames := ⟨id, byId.parents id, 0⟩ :: walk.frames }

/-- The frame on top has looked at one more parent. -/
def Walk.advance (frame : Frame) (below : List Frame) (walk : Walk) : Walk :=
  { walk with frames := { frame with next := frame.next + 1 } :: below }

/-- The frame on top is popped, with its set and depth stored. -/
def Walk.settle (frame : Frame) (below : List Frame) (result : List String) (depth : ℕ)
    (walk : Walk) : Walk where
  effectiveTypes := Function.update walk.effectiveTypes frame.id (some result)
  depths := Function.update walk.depths frame.id (some depth)
  visiting := walk.visiting.erase frame.id
  frames := below

def push (byId : ById) (id : String) (walk : Walk) : Administered Walk := do
  checkDepth (walk.frames.length + 1)
  return walk.enter byId id

/-- Look at the next parent of the frame on top. -/
def descend (byId : ById) (frame : Frame) (below : List Frame) (parent : String) (walk : Walk) :
    Administered Walk := do
  let advanced := walk.advance frame below
  Metered.lift (check (parent ∉ walk.visiting) (.cycle parent))
  if (walk.effectiveTypes parent).isSome then return advanced
  else push byId parent advanced

def addEffective (result : List String) (effective : String) : Administered (List String) := do
  charge .unionAttempts
  if effective ∈ result then return result
  else do
    charge .memberships
    return result ++ [effective]

def inherit (effectiveTypes : String → Option (List String)) (result : List String)
    (parent : String) : Administered (List String) := do
  let inherited ← Metered.lift (require (effectiveTypes parent) .missingParentSet)
  inherited.foldlM addEffective result

/-- One more than the greatest depth of the parents. -/
def depthOf (depths : String → Option ℕ) (parents : List String) : ℕ :=
  parents.foldl (fun depth parent ↦ max depth (1 + (depths parent).getD 0)) 1

/-- All parents of the frame on top are done: its own set is their union with itself. -/
def complete (frame : Frame) (below : List Frame) (walk : Walk) : Administered Walk := do
  let depth := depthOf walk.depths frame.parents
  checkDepth depth
  charge .memberships
  let result ← frame.parents.foldlM (inherit walk.effectiveTypes) [frame.id]
  return walk.settle frame below result depth

/-- One turn of the loop, with the frame on top of the stack. -/
def turn (byId : ById) (frame : Frame) (below : List Frame) (walk : Walk) : Administered Walk :=
  match frame.parents[frame.next]? with
  | some parent => descend byId frame below parent walk
  | none => complete frame below walk

def drain (byId : ById) : ℕ → Walk → Administered Walk
  | 0, walk =>
    match walk.frames with
    | [] => pure walk
    | _ :: _ => Metered.lift (.error .unfinished)
  | turns + 1, walk =>
    match walk.frames with
    | [] => pure walk
    | frame :: below => turn byId frame below walk >>= drain byId turns

/-- The walk of one root takes no more turns than this. -/
def turnBound (byId : ById) : ℕ :=
  (byId.map fun descriptor ↦ 2 * (byId.parents descriptor.id).length + 2).sum + 1

def visitRoot (byId : ById) (walk : Walk) (id : String) : Administered Walk :=
  if (walk.effectiveTypes id).isSome then pure walk
  else push byId id walk >>= drain byId (turnBound byId)

end Walk

section Index

structure TypeConformanceIndex where
  effectiveTypes : String → Option (List String)
  statistics : Counter → ℕ

/-- The declared Type is, or transitively conforms to, the required Type. -/
def TypeConformanceIndex.includes (index : TypeConformanceIndex)
    (declaredType requiredType : String) : Bool :=
  declaredType = requiredType ||
    (index.effectiveTypes declaredType).any fun set ↦ requiredType ∈ set

/-- The index is built under the limits, charging the counters. -/
def buildIndex (descriptors : List TypeDescriptor) : Administered Walk := do
  let byId ← descriptors.foldlM addDescriptor []
  forM descriptors fun descriptor ↦
    forM descriptor.conformsTo fun parentId ↦ checkParent byId descriptor parentId
  (byId.map TypeDescriptor.id).foldlM (visitRoot byId) Walk.empty

def createTypeConformanceIndex (descriptors : List TypeDescriptor)
    (inputLimits : Option (Counter → ℚ)) : Except Failure TypeConformanceIndex := do
  let limits ← inputLimits.mapM checkLimits
  let (walk, counts) ← (buildIndex descriptors).runUnder limits 0
  return ⟨walk.effectiveTypes, counts⟩

end Index

end Bdp.Conformance
