import Bdp.Admission.SemanticText
import Bdp.Normalize.Witnesses

/-!
# Normalization of transactions

`normalizeTransaction` with the witnesses that it records, and `admitKey`, which compares the
identity of a retry with the one in the row of its key. Everything that normalization reads of the
alias table goes through `aliasTarget`.
-/

namespace Bdp.Normalize

open CodeUnits Admission

section Definitions

structure Operation where
  operation : OperationKind
  input : List (Text × JsonTree JsonLeaf)
  name : Option Text

def uriName : Text := ascii ['u', 'r', 'i']
def revisionName : Text := ascii ['r', 'e', 'v', 'i', 's', 'i', 'o', 'n']
def propertiesName : Text := ascii ['p', 'r', 'o', 'p', 'e', 'r', 't', 'i', 'e', 's']
def metadataName : Text := ascii ['m', 'e', 't', 'a', 'd', 'a', 't', 'a']
def revisionProvenanceName : Text := ascii
  ['r', 'e', 'v', 'i', 's', 'i', 'o', 'n', 'P', 'r', 'o', 'v', 'e', 'n', 'a', 'n', 'c', 'e']
def unresolvedAliasName : Text := ascii
  ['u', 'n', 'r', 'e', 's', 'o', 'l', 'v', 'e', 'd', 'A', 'l', 'i', 'a', 's']
def creatorIndexName : Text := ascii ['c', 'r', 'e', 'a', 't', 'o', 'r', 'I', 'n', 'd', 'e', 'x']
def inputName : Text := ascii ['i', 'n', 'p', 'u', 't']

/-- The URI of a reference: the reference itself or its member. -/
def referenceUri : JsonTree JsonLeaf → Option Text
  | .leaf (.string value) => some value
  | .object members => stringOf (members.lookup uriName)
  | _ => none

/-- The reference slots that the preflight of a carrier visits; sets have none. -/
def REFERENCE_FIELDS : OperationKind → List Text
  | .createBead => [idName]
  | .createLink => [idName, sourceName, targetName]
  | .updateBead | .deleteBead => [beadName]
  | .updateLink | .deleteLink => [linkName]
  | .putAlias => [aliasName, targetName]
  | .deleteAlias => [aliasName]
  | .updateWhere | .deleteWhere => []

variable {parse : UrlParser} (scope : Scope parse)

def preflightOperation (operation : Operation) : Bool :=
  (REFERENCE_FIELDS operation.operation).all fun field ↦
    match operation.input.lookup field with
    | none => true
    | some value =>
      match referenceUri value with
      | none => false
      | some reference =>
        preflightReference scope (field == idName && (operation.operation == .createBead ||
          operation.operation == .createLink)) reference

/-- A carrier whose operations have passed the preflight. -/
structure PreparedTransaction where
  operations : List Operation
  nonempty : operations ≠ []
  preflighted : ∀ operation ∈ operations, preflightOperation scope operation = true

/-- What a reference slot is bound to from outside. -/
inductive ReferenceBinding where
  | string (value : Text)
  | unbound

def ReferenceBinding.value : ReferenceBinding → JsonTree SemanticLeaf
  | .string value => .leaf (.string value)
  | .unbound => .leaf .unbound

def semanticLeaf : JsonLeaf → SemanticLeaf
  | .null => .null
  | .bool value => .bool value
  | .string value => .string value
  | .number literal => .number literal

/-- Assign a member of an object; a new member comes last. -/
def assign (members : List (Text × JsonTree SemanticLeaf)) (name : Text)
    (value : JsonTree SemanticLeaf) : List (Text × JsonTree SemanticLeaf) :=
  if (members.lookup name).isSome then
    members.map fun member ↦ if member.1 = name then (name, value) else member
  else members ++ [(name, value)]

def isCreation (kind : OperationKind) : Bool := kind == .createBead || kind == .createLink

/-- The value of a member, or the empty object for an absent or null one. -/
def orEmpty (members : List (Text × JsonTree SemanticLeaf)) (name : Text) : JsonTree SemanticLeaf :=
  match members.lookup name with
  | none | some (.leaf .null) => .object []
  | some value => value

def hasNoMembers : JsonTree SemanticLeaf → Bool
  | .object members => members.isEmpty
  | .array items => items.isEmpty
  | _ => false

/-- The input with the defaults of a creation, and without an empty provenance. -/
def preparedInput (operation : Operation) : List (Text × JsonTree SemanticLeaf) :=
  let supplied := operation.input.map (Prod.map id (JsonTree.map semanticLeaf))
  let input :=
    if isCreation operation.operation then
      assign (assign supplied propertiesName (orEmpty supplied propertiesName)) metadataName
        (orEmpty supplied metadataName)
    else supplied
  if (input.lookup revisionProvenanceName).any hasNoMembers then
    input.filter fun member ↦ member.1 ≠ revisionProvenanceName
  else input

def referenceSlots : List Text := [idName, sourceName, targetName, beadName, linkName, aliasName]

/-- What the loop over the reference slots has computed. -/
structure Slots where
  input : List (Text × JsonTree SemanticLeaf)
  aliases : List (Text × Option Text)
  identities : List (Text × Text)

def semanticString : Option (JsonTree SemanticLeaf) → Option Text
  | some (.leaf (.string value)) => some value
  | _ => none

/-- The URI of a reference in the prepared input. -/
def semanticUri : JsonTree SemanticLeaf → Option Text
  | .leaf (.string value) => some value
  | .object members => semanticString (members.lookup uriName)
  | _ => none

/-- A reference with its URI replaced; a pinned one keeps its revision. -/
def withReference (value normalized : JsonTree SemanticLeaf) :
    Except NormalizationError (JsonTree SemanticLeaf) :=
  match value with
  | .object members =>
    match members.lookup revisionName with
    | none => .error (.typeError
        "semantic values require lossless JSON data, not native numbers or other runtime values")
    | some revision => .ok (.object [(uriName, normalized), (revisionName, revision)])
  | _ => .ok normalized

/-- Read the target of a locator that has not been read before. -/
def capture (target : Text → Except NormalizationError (Option Text)) (locator : Text)
    (aliases : List (Text × Option Text)) :
    Except NormalizationError (List (Text × Option Text)) :=
  if (aliases.lookup locator).isSome then .ok aliases
  else do
    let target ← target locator
    pure (aliases ++ [(locator, target)])

def unresolvedAlias (locator : Text) : JsonTree SemanticLeaf :=
  .object [(unresolvedAliasName, .leaf (.string locator))]

/-- What the loops read besides their operation. -/
structure Surroundings where
  target : Text → Except NormalizationError (Option Text)
  creators : List (Text × JsonTree SemanticLeaf)
  bindings : List (Text × ReferenceBinding)
  first : Bool

/-- The normalized URI of a slot, with the aliases captured after it. -/
def normalizedUri (around : Surroundings) (kind : OperationKind) (field uri : Text)
    (aliases : List (Text × Option Text)) :
    Except NormalizationError (JsonTree SemanticLeaf × List (Text × Option Text)) :=
  let locator := canonicalReference scope uri
  match if around.first then around.bindings.lookup field else none with
  | some binding => .ok (binding.value, aliases)
  | none =>
    if (transactionAliasFields kind).contains field &&
        (scope.text ++ aliasRoot).isPrefixOf locator then do
      let aliases ← capture around.target locator aliases
      pure (match (aliases.lookup locator).join with
        | some target => .leaf (.string target)
        | none => unresolvedAlias locator, aliases)
    else if uri.head? = some 64 then
      match around.creators.lookup uri.tail with
      | none => .error (.typeError "unknown batch binding")
      | some creator => .ok (creator, aliases)
    else .ok (.leaf (.string locator), aliases)

/-- The identity of a slot is noted for the first operation only. -/
def noteIdentity (first : Bool) (field : Text) (normalized : JsonTree SemanticLeaf)
    (identities : List (Text × Text)) : Except NormalizationError (List (Text × Text)) :=
  if first then do
    let identity ← (encodeSemanticValue normalized).mapError .typeError
    pure (identities ++ [(field, identity)])
  else .ok identities

def normalizeSlot (around : Surroundings) (kind : OperationKind) (slots : Slots) (field : Text) :
    Except NormalizationError Slots :=
  match slots.input.lookup field with
  | none => .ok slots
  | some value =>
    match semanticUri value with
    | none => .error (.typeError "expected reference")
    | some uri => do
      let (normalized, aliases) ← normalizedUri scope around kind field uri slots.aliases
      let identities ← noteIdentity around.first field normalized slots.identities
      let value ← withReference value normalized
      pure ⟨assign slots.input field value, aliases, identities⟩

/-- The target of a locator: the one of the record for the same operation, else the one that the
alias table has now. -/
def aliasTarget (resolveAlias : Text → Option Text) (previous : Option OperationWitnesses)
    (kind : OperationKind) (locator : Text) : Except NormalizationError (Option Text) :=
  let old := match previous with
    | some witnesses =>
      if witnesses.operation = kind then
        witnesses.aliases.find? fun witness : AliasWitness ↦ witness.locator == locator
      else none
    | none => none
  match match old with
    | none => resolveAlias locator
    | some witness => witness.target with
  | none => .ok none
  | some target => (witnessedReference scope .resource target).map some

/-- An operation with its semantic identity, what it read of aliases and what its slots denote. -/
structure NormalizedOperation where
  identity : JsonTree SemanticLeaf
  witnesses : OperationWitnesses
  referenceIdentities : List (Text × Text)

def creatorOf (index : ℕ) (operation : Operation) :
    Except NormalizationError (JsonTree SemanticLeaf) :=
  match operation.input.lookup idName with
  | none => .ok (.object [(creatorIndexName, .leaf (.string (Decimal.integerText index)))])
  | some (.leaf (.string id)) => .ok (.leaf (.string (canonicalReference scope id)))
  | some _ => .error (.typeError "expected creation id")

/-- The creators by name; the last one of a name counts. -/
def registerCreator (index : ℕ) (operation : Operation)
    (creators : List (Text × JsonTree SemanticLeaf)) :
    Except NormalizationError (List (Text × JsonTree SemanticLeaf)) :=
  match if isCreation operation.operation then operation.name else none with
  | none => .ok creators
  | some name => do
    let creator ← creatorOf scope index operation
    pure ((name, creator) :: creators)

def normalizeOperation (around : Surroundings) (operation : Operation) :
    Except NormalizationError NormalizedOperation := do
  let slots ← referenceSlots.foldlM (normalizeSlot scope around operation.operation)
    ⟨preparedInput operation, [], []⟩
  pure
    { identity := .object [(operationName, .leaf (.string operation.operation.text)),
        (inputName, .object slots.input)]
      witnesses := ⟨operation.operation, slots.aliases.map fun (locator, target) ↦ ⟨locator, target⟩⟩
      referenceIdentities := slots.identities }

def normalizeOperations (resolveAlias : Text → Option Text)
    (prior : Option (List OperationWitnesses)) (bindings : List (Text × ReferenceBinding)) :
    ℕ → List (Text × JsonTree SemanticLeaf) → List Operation →
    Except NormalizationError (List NormalizedOperation)
  | _, _, [] => .ok []
  | index, creators, operation :: operations => do
    let previous := prior.bind fun prior ↦ prior[index]?
    let normalized ← normalizeOperation scope
      ⟨aliasTarget scope resolveAlias previous operation.operation, creators, bindings, index == 0⟩
      operation
    let creators ← registerCreator scope index operation creators
    let rest ← normalizeOperations resolveAlias prior bindings (index + 1) creators operations
    pure (normalized :: rest)

def priorWitnesses : Option Text → Except NormalizationError (Option (List OperationWitnesses))
  | none => .ok none
  | some text => (parseWitnesses scope text).map some

structure NormalizedTransaction where
  identity : Text
  witnessesJson : Text
  referenceIdentities : List (Text × Text)

variable {scope}

def normalizeTransaction (batch : PreparedTransaction scope) (resolveAlias : Text → Option Text)
    (priorWitnessesJson : Option Text) (bindings : List (Text × ReferenceBinding)) :
    Except NormalizationError NormalizedTransaction := do
  let prior ← priorWitnesses scope priorWitnessesJson
  let normalized ← normalizeOperations scope resolveAlias prior bindings 0 [] batch.operations
  let identity ←
    (encodeSemanticValue (.array (normalized.map NormalizedOperation.identity))).mapError .typeError
  pure
    { identity
      witnessesJson := Normalize.witnessesJson scope (normalized.map NormalizedOperation.witnesses)
      referenceIdentities := normalized.flatMap NormalizedOperation.referenceIdentities }

/-- `snapshotTransactionReceivingControls` -/
structure TransactionReceivingControls where
  acceptsJson : Bool
  maximumOperations : ℕ
  bounded : maximumOperations ≤ TRANSACTION_MAXIMUM_OPERATIONS

/-- How a transaction comes to the key table: as a request of its own, or as one member of a
sequence. The row of a deferred member is filled in the same way when its creators are known. -/
inductive Route (batch : PreparedTransaction scope) where
  | request (controls : TransactionReceivingControls)
  | member (single : batch.operations.length = 1)

/-- The row of a key, as far as a comparison reads it. -/
structure KeyRow where
  identity : Text
  witnesses : Text
  pending : Bool

inductive KeyAdmission where
  | existing
  | conflict
  | operationLimit
  | selectorLimit
  | notAcceptable
  | owned (row : KeyRow)

/-- `admitKey` for a request without a dependency template; `capacity` says that every Selector is
within its limits. -/
def admitKey (batch : PreparedTransaction scope) (route : Route batch) (capacity : Bool)
    (resolveAlias : Text → Option Text) (bindings : List (Text × ReferenceBinding))
    (pendingWins : Bool) (prior : Option KeyRow) : Except NormalizationError KeyAdmission :=
  match prior with
  | some row =>
    if pendingWins && row.pending then .ok .existing
    else do
      let normalized ← normalizeTransaction batch resolveAlias (some row.witnesses) bindings
      pure (if row.identity ≠ normalized.identity then .conflict else .existing)
  | none => do
    let normalized ← normalizeTransaction batch resolveAlias none bindings
    let row : KeyRow := ⟨normalized.identity, normalized.witnessesJson, true⟩
    match route with
    | .member _ => pure (.owned row)
    | .request controls =>
      if controls.maximumOperations < batch.operations.length then pure .operationLimit
      else if !capacity then pure .selectorLimit
      else if !controls.acceptsJson then pure .notAcceptable
      else pure (.owned row)

end Definitions

end Bdp.Normalize
