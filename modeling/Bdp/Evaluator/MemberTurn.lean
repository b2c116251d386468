import Bdp.Evaluator.Addressing
import Bdp.Evaluator.SnapshotCheck

/-!
# Turns of members

A member under the envelope of the recovery store. Handles, spellings and aliases are replaced
before the evaluation, and the identities of its outcome have to be canonical in the Scope and to be those
that the member named. A turn that throws rolls its writes back, and so does one whose outcome fails
this check: a creation that stays keeps the identity it asked for.
-/

namespace Bdp.Evaluator

open Recovery (ResourceKind)
open Transaction (Reference)
open UrlPath (Scope hasScheme)
open Bdp.Except (bind_eq_ok)

section Normalization

variable (options : ResourceEvaluationOptions) (tx : ResourceTransaction)

/-- The URL that a reference is replaced by: the target of an alias of a Bead, or its own. -/
def executableReference (kind : ResourceKind) (reference : String) : Except Stop String := do
  let uri ← canonical options reference
  match kind, ((options.scope.localPath uri).bind aliasPath).bind tx.alias with
  | .bead, some target => pure (options.scope.href ++ target)
  | _, _ => pure uri

def executableEndpoint (reference : Reference) : Except Stop Reference :=
  (executableReference options tx .bead reference.uri).map fun uri ↦ { reference with uri }

def executableInput (input : CreateInput) : Except Stop CreateInput :=
  match input.id with
  | none => .ok input
  | some spelling => (canonical options spelling).map fun id ↦ { input with id := some id }

def ResourceMutation.executable : ResourceMutation → Except Stop ResourceMutation
  | .createBead input => (executableInput options input).map .createBead
  | .createLink input source target => do
    let input ← executableInput options input
    let source ← executableEndpoint options tx source
    let target ← executableEndpoint options tx target
    pure (.createLink input source target)
  | .update kind input => do
    let subject ← executableReference options tx kind input.subject
    pure (.update kind { input with subject })
  | .delete kind subject expected => do
    let subject ← executableReference options tx kind subject
    pure (.delete kind subject expected)

end Normalization

section Envelope

variable (scope : Scope)

def rootId (value : String) : Except String Unit := do
  let localId ← require (scope.localPath value)
    "stored Resource identity escaped its canonical Scope"
  let resolved ← resolveCanonicalLocalResourceId scope localId
  check (resolved = value) "stored Resource identity escaped its canonical Scope"

/-- The identity of a Link and those of its endpoints that stand below the Scope. -/
def linkScope (link : LinkRecord) : Except String Unit := do
  rootId scope link.id
  [link.source, link.target].forM fun reference ↦
    if (scope.localPath reference.uri).isSome then rootId scope reference.uri else .ok ()

def recordScope (record : ResourceRecord) : Except String Unit := do
  rootId scope record.id
  record.links.forM (linkScope scope)

/-- The identities that `parseDisposition` checks. -/
def parseDisposition (outcome : MutationOutcome) : Except String Unit := do
  let source ← match outcome with
    | .created record source => (recordScope scope record).map fun _ ↦ source
    | .updated record source => (recordScope scope record).map fun _ ↦ source
    | .deleted _ id _ _ source => (rootId scope id).map fun _ ↦ source
  match source with
  | none => .ok ()
  | some source => rootId scope source.1

/-- The outcome answers the member, under the identities that its witnesses name. -/
def coherent (mutation : ResourceMutation) (outcome : MutationOutcome) : Except String Unit :=
  let named (name : String) (id : String) :=
    check (name = id) "Resource outcome differs from identity witnesses"
  match mutation, outcome with
  | .createBead input, .created (.bead record) _ => input.id.toList.forM fun id ↦ named id record.id
  | .createLink input source target, .created (.link record) _ => do
    input.id.toList.forM fun id ↦ named id record.id
    check (source.uri = record.source.uri ∧ target.uri = record.target.uri)
      "created Link endpoint differs from witnesses"
  | .update kind input, .updated record _ => do
    check (record.kind = kind) "Resource result kind differs"
    named input.subject record.id
  | .delete kind subject _, .deleted deleted id _ _ _ => do
    check (deleted = kind) "deleted result kind differs"
    named subject id
  | _, _ => .error "Resource result differs from operation"

/-- What the recovery store checks of an outcome before it retains it. -/
def checkOutcome (store : StoreKind) (mutation : ResourceMutation) (outcome : MutationOutcome) :
    Except String Unit :=
  match store with
  | .recovery => do
    parseDisposition scope outcome
    coherent mutation outcome
  | .transaction => .ok ()

end Envelope

section Turns

variable (config : GraphConfiguration) (graph : Graph) (context : MemberContext)

/-- One member: its writes, and in the recovery store the check of what it is to retain. -/
def Graph.turn (bindings : Bindings) (mutation : ResourceMutation) : Except Stop Graph := do
  let options := context.options config
  let tx := graph.view config context
  let executable ← (mutation.bound bindings).executable options tx
  let evaluation ← evaluate options tx executable
  let after ← (graph.apply config evaluation).mapError .fault
  (checkOutcome config.scope config.store executable evaluation.outcome).mapError .fault
  pure after

/-- The graph that a member leaves; a refusal writes nothing, and whatever throws is rolled back. -/
def Graph.runMember (bindings : Bindings) (mutation : ResourceMutation) : Graph :=
  match graph.turn config context bindings mutation with
  | .ok after => after
  | .error _ => graph

/-- A digest in hexadecimal, from which the recovery store allocates identities. -/
def isDigest (id : String) : Bool :=
  id.toList.all fun letter ↦ "0123456789abcdef".toList.contains letter

variable {config graph context}

theorem hasScheme_digest {id : String} (h : isDigest id = true) : hasScheme id = false := by
  by_contra hscheme
  rw [Bool.not_eq_false, hasScheme, Option.isSome_iff_exists] at hscheme
  obtain ⟨⟨name, rest⟩, hsplit⟩ := hscheme
  have htext := (UrlPath.splitScheme_eq_some hsplit).1
  have hcolon : ':' ∈ id.toList := by
    rw [htext]
    exact List.mem_append_right _ List.mem_cons_self
  have hdigit := List.all_eq_true.mp h ':' hcolon
  revert hdigit
  decide

variable {bindings : Bindings} {mutation executable : ResourceMutation} {after : Graph}
  {evaluation : ResourceEvaluation} {outcome : MutationOutcome}

theorem turn_spec (h : graph.turn config context bindings mutation = .ok after) :
    ∃ executable evaluation, (mutation.bound bindings).executable (context.options config)
        (graph.view config context) = .ok executable ∧
      graph.Mutated config context executable evaluation after ∧
      (config.store = .recovery → coherent executable evaluation.outcome = .ok ()) := by
  obtain ⟨executable, hexecutable, h⟩ := bind_eq_ok.mp h
  obtain ⟨evaluation, hevaluation, h⟩ := bind_eq_ok.mp h
  obtain ⟨written, hwritten, h⟩ := bind_eq_ok.mp h
  obtain ⟨_, hchecked, h⟩ := bind_eq_ok.mp h
  obtain rfl := Except.pure_eq_ok_iff.mp h
  refine ⟨executable, evaluation, hexecutable,
    ⟨hevaluation, mapError_eq_ok.mp hwritten⟩, fun hstore ↦ ?_⟩
  have hchecked := mapError_eq_ok.mp hchecked
  rw [hstore] at hchecked
  obtain ⟨_, -, hcoherent⟩ := bind_eq_ok.mp hchecked
  exact hcoherent

theorem created_named {record : ResourceRecord} {source : Option (String × String)} {id : String}
    (h : coherent mutation (.created record source) = .ok ())
    (hid : mutation.suppliedIdentity = some id) : id = record.id := by
  have hnamed (input : CreateInput) (hinput : input.id = some id) (name : String)
      (h : (input.id.toList.forM fun id ↦
        check (id = name) "Resource outcome differs from identity witnesses") = .ok ()) :
      id = name := by
    rw [hinput] at h
    exact check_eq_ok.mp (forM_eq_ok h id List.mem_cons_self)
  cases mutation with
  | createBead input =>
    cases record with
    | bead record => exact hnamed input hid record.id h
    | link record => cases h
  | createLink input first second =>
    cases record with
    | bead record => cases h
    | link record =>
      obtain ⟨_, h, -⟩ := bind_eq_ok.mp h
      exact hnamed input hid record.id h
  | update kind input => cases hid
  | delete kind subject expected => cases hid

theorem plainCreation_of_coherent
    (hallocated : ∀ kind id, context.allocateResourceId kind = .ok id → isDigest id = true)
    (hevaluated : evaluate (context.options config) (graph.view config context) mutation =
      .ok evaluation) (hcoherent : coherent mutation evaluation.outcome = .ok ()) :
    PlainCreation config context mutation := by
  intro hcreating spelling hspelling
  obtain ⟨prepared, versions, he⟩ := evaluate_spec hevaluated
  obtain ⟨-, hcreated⟩ | ⟨hfalse, -⟩ := mutationSubject_spec he.isPrepared.subject
  case inr => rw [hcreating] at hfalse; cases hfalse
  cases hsupplied : mutation.suppliedIdentity with
  | none =>
    rw [MemberContext.identitySpelling, hsupplied] at hspelling
    cases hallocation : context.allocateResourceId mutation.resourceKind with
    | error message => rw [hallocation] at hspelling; cases hspelling
    | ok allocated =>
      rw [hallocation] at hspelling
      obtain rfl := Option.some.inj hspelling
      rw [plainIdentity, hasScheme_digest (hallocated _ _ hallocation)]
      rfl
  | some supplied =>
    refine (plainCreation_iff hcreating hcreated).mpr ?_ hcreating spelling hspelling
    obtain ⟨record, source, hafter, houtcome⟩ := he.created hcreating
    rw [houtcome] at hcoherent
    have hname := created_named hcoherent hsupplied
    have hid := (after_spec he.isPrepared he.made hafter).2.1
    obtain ⟨other, uri, hother, huri, hpath⟩ := hcreated.named
    have hsame : supplied = other := by
      have hspelled := creationSpelling_eq_ok hother
      rw [MemberContext.identitySpelling, hsupplied] at hspelled
      exact Option.some.inj hspelled
    obtain ⟨hbelow, -⟩ := UrlPath.Scope.resourcePath_eq_some.mp hpath
    obtain ⟨-, rfl⟩ | ⟨hscheme, -, rfl⟩ := canonical_eq_ok huri
    · -- the accepted URL is the one that the checked path is resolved to
      have hresolved := hcreated.resolved
      rw [← hid, ← hname, hsame, hbelow] at hresolved
      exact UrlPath.Scope.resolve_eq_append_iff.mp hresolved
    · rwa [← (String.append_right_inj _).mp hbelow]

end Turns

end Bdp.Evaluator
