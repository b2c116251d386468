import Bdp.Retained.Configuration

/-!
# Reference comparison

A request names resources through locators that may be aliases. Its identity is compared after the
captured reference slots are resolved, either through the current alias table or, for a request
that was decided before, through the witnesses retained with that decision.
-/

namespace Bdp.Retained

/-- What an alias locator stood for when a request was decided; none for a missing alias. -/
structure AliasWitness where
  locator : String
  target : Option String
  deriving DecidableEq, Repr

inductive ResolvedAliasReference where
  | value (reference : EndpointReference)
  | missingAlias (locator : String) (revision : Option String)
  deriving DecidableEq, Repr

/-- Outer none: the locator is a direct URI. Inner none: an admitted missing alias. -/
abbrev AliasLookup := String → Option (Option String)

def EndpointReference.withUri : EndpointReference → String → EndpointReference
  | .floating _, uri => .floating uri
  | .pinned _ revision, uri => .pinned uri revision

def EndpointReference.pin : EndpointReference → Option String
  | .floating _ => none
  | .pinned _ revision => some revision

/-- A retained witness decides its locator; every other locator is looked up now. -/
def witnessedTarget (lookup : AliasLookup) (prior : List AliasWitness) : AliasLookup := fun uri ↦
  match prior.find? fun witness ↦ witness.locator == uri with
  | some witness => some witness.target
  | none => lookup uri

def resolveAliasReference (lookup : AliasLookup) (prior : List AliasWitness)
    (reference : EndpointReference) : ResolvedAliasReference :=
  match witnessedTarget lookup prior (referenceUri reference) with
  | some none => .missingAlias (referenceUri reference) reference.pin
  | some (some target) => .value (reference.withUri target)
  | none => .value reference

/-- The aliases met by a fresh request, one entry for each locator. -/
def initialTargets (lookup : AliasLookup) (references : List EndpointReference) :
    Table (Option String) :=
  references.foldl (fun targets reference ↦
    match lookup (referenceUri reference) with
    | some target => targets.insert (referenceUri reference) target
    | none => targets) ∅

def witnessList (targets : Table (Option String)) : List AliasWitness :=
  targets.toList.map fun entry ↦ ⟨entry.1, entry.2⟩

/-- A retry keeps the retained witnesses; a fresh request captures its own. -/
def originalWitnesses (lookup : AliasLookup) (prior : Option (List AliasWitness))
    (references : List EndpointReference) : List AliasWitness :=
  prior.getD (witnessList (initialTargets lookup references))

inductive ReferenceSlot where
  | bead
  | source
  | target
  deriving DecidableEq, Repr

def ReferenceSlot.text : ReferenceSlot → String
  | .bead => "bead"
  | .source => "source"
  | .target => "target"

/-- Values of the captured slots, in slot order. -/
abbrev Slots (α : Type) := List (ReferenceSlot × α)

def Slots.get {α : Type} (slots : Slots α) (name : ReferenceSlot) : Option α := slots.lookup name

def EndpointReference.semantic : EndpointReference → SemanticValue
  | .floating uri => .string uri
  | .pinned uri revision => .object [("uri", .string uri), ("revision", .string revision)]

/-- An unbound node cannot be written as a JSON reference, so misses stay distinct. -/
def ResolvedAliasReference.semantic : ResolvedAliasReference → SemanticValue
  | .value reference => reference.semantic
  | .missingAlias locator none => .array [.unbound, .string locator]
  | .missingAlias locator (some revision) =>
      .array [.unbound, .string locator, .string revision]

/-- What an admission factory registers for its immutable invocation. -/
structure CapturedComparison where
  format : String
  media : String
  capabilities : SemanticObject
  operation : Operation
  /-- The lossless normalized input. -/
  input : SemanticObject
  slots : Slots EndpointReference

namespace CapturedComparison

/-- The identity tree with the resolved slots substituted in the input. -/
def semantic (captured : CapturedComparison) (references : Slots SemanticValue) : SemanticValue :=
  .object [("format", .string captured.format), ("specification", .string RETAINED_SPEC),
    ("media", .string captured.media), ("capabilities", .object captured.capabilities),
    ("operation", .string captured.operation.text),
    ("input", .object (spread captured.input
      (references.map fun entry ↦ (entry.1.text, entry.2))))]

def identityFor (captured : CapturedComparison) (codec : JsonCodec ℚ)
    (references : Slots SemanticValue) : String :=
  encodeSemanticValue codec (captured.semantic references)

end CapturedComparison

structure ReferenceComparison where
  identity : String
  references : Slots ResolvedAliasReference
  originalWitnesses : List AliasWitness

/-- Fixed slots are lexical bindings of a batch: they are never looked up. -/
def resolveSlots (captured : CapturedComparison) (lookup : AliasLookup)
    (prior : Option (List AliasWitness)) (fixedSlots : List ReferenceSlot) :
    Slots ResolvedAliasReference :=
  captured.slots.map fun entry ↦
    (entry.1, if fixedSlots.contains entry.1 then .value entry.2
      else resolveAliasReference lookup (prior.getD []) entry.2)

def compareCapturedReferences (codec : JsonCodec ℚ) (captured : CapturedComparison)
    (lookup : AliasLookup) (prior : Option (List AliasWitness))
    (fixedSlots : List ReferenceSlot) : ReferenceComparison :=
  let resolved := resolveSlots captured lookup prior fixedSlots
  { identity := captured.identityFor codec (resolved.map fun entry ↦ (entry.1, entry.2.semantic))
    references := resolved
    originalWitnesses := originalWitnesses lookup prior
      ((captured.slots.filter fun entry ↦ !fixedSlots.contains entry.1).map Prod.snd) }

end Bdp.Retained
