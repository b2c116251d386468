import Bdp.Evaluator.Evaluate

/-!
# The alias evaluator

Putting an alias on a live visible Bead, and deleting a live alias. An alias never takes the place
of a committed identity, and its target is a Bead by its own identity, never another alias.
-/

namespace Bdp.Evaluator

open Recovery (ResourceKind)

inductive AliasMutation where
  | putAlias («alias» target : String)
  | deleteAlias («alias» : String)
  deriving DecidableEq, Repr

def AliasMutation.locator : AliasMutation → String
  | .putAlias «alias» _ => «alias»
  | .deleteAlias «alias» => «alias»

inductive AliasOutcome where
  | created («alias» target : String)
  | updated («alias» target : String)
  | deleted («alias» : String)
  deriving DecidableEq, Repr

/-- The row that an alias mutation writes or removes. -/
inductive AliasChange where
  | unchanged
  | put (path target : String)
  | delete (path : String)
  deriving DecidableEq, Repr

structure AliasEvaluation where
  outcome : AliasOutcome
  change : AliasChange
  deriving DecidableEq, Repr

variable (options : ResourceEvaluationOptions) (canWriteBead : BeadRecord → Bool)
  (tx : ResourceTransaction)

def targetDiagnostic : ValidationDiagnostic :=
  plainDiagnostic ("an alias put's target must be a canonical in-Scope Bead reference; an alias, " ++
    "a Link, or an external URI is not admitted")

def badTarget {α : Type} : Except Stop α :=
  .error (.failure
    { family := "validation", code := "validation-failed", status := 422, retry := "never"
      diagnostics := [targetDiagnostic], diagnosticsTruncated := false })

/-- The canonical local path of a reference in the Scope. -/
def pathInScope (uri : String) : Except Stop (Option String) :=
  match options.scope.localPath uri with
  | none => .ok none
  | some path => do
    check (UrlPath.canonicalPath path = true)
      (.fault "S1/Scope preflight must reject malformed alias references")
    pure (some path)

def loadVisibleBead (id : String) : Except Stop BeadRecord := do
  let stored ← require ((tx.resource id).filter fun found ↦ found.kind == .bead)
    (refusal .resourceNotFound)
  match stored.body with
  | .link _ => .error (.fault "invalid stored Resource")
  | .bead record => do
    check (options.readable stored.body = true) (.fault "invalid stored Resource")
    check (record.id = options.scope.href ++ id ∧ stored.id = id)
      (.fault "stored Bead identity differs from its index")
    let visible ← isResourceVisible options tx stored.body
    check (visible = true) (refusal .resourceNotFound)
    pure record

def proposedTarget (target : String) : Except Stop (String × BeadRecord) := do
  let uri ← canonical options target
  match ← pathInScope options uri with
  | none => badTarget
  | some path =>
    if (aliasPath path).isSome then badTarget
    else do
      let stored ← require (tx.resource path) (refusal .resourceNotFound)
      if stored.kind ≠ .bead then badTarget
      else do
        let record ← loadVisibleBead options tx path
        pure (path, record)

/-- The path below the alias root that a locator names. -/
def locatorPath (locator : String) : Except Stop (String × String) := do
  let uri ← canonical options locator
  let path ← pathInScope options uri
  let path ← require ((path.bind aliasPath).filter fun path ↦ path != "")
    (refusal .resourceNotFound)
  pure (uri, path)

def currentTarget (path : String) : Except Stop (Option BeadRecord) :=
  match tx.alias path with
  | none => .ok none
  | some id => (loadVisibleBead options tx id).map some

def evaluateAlias (mutation : AliasMutation) : Except Stop AliasEvaluation := do
  let (locator, path) ← locatorPath options mutation.locator
  match mutation with
  | .putAlias _ target => do
    check (tx.identityWasCommitted ("alias/" ++ path) = false) (refusal .identityTaken)
    let (proposedId, proposed) ← proposedTarget options tx target
    let current ← currentTarget options tx path
    check (canWriteBead proposed = true) (refusal .forbidden)
    check (tx.alias path = some proposedId ∨ current.all canWriteBead = true) (refusal .forbidden)
    pure { outcome := if (tx.alias path).isNone then .created locator proposed.id
             else .updated locator proposed.id
           change := if tx.alias path = some proposedId then .unchanged
             else .put path proposedId }
  | .deleteAlias _ => do
    let id ← require (tx.alias path) (refusal .resourceNotFound)
    let current ← loadVisibleBead options tx id
    check (canWriteBead current = true) (refusal .forbidden)
    pure { outcome := .deleted locator, change := .delete path }

end Bdp.Evaluator
