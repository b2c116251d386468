import Bdp.Retained.Batch
import Bdp.Retained.EventPages

/-!
# The owner of a retained store

Every request runs in one transaction: it commits the store it returns, or rolls back to the store
it began with. A database error fences the owner, after which every request fails.
-/

namespace Bdp.Retained

variable (config : StoreConfiguration)

structure Owner where
  store : Store
  fenced : Bool

/-- What a caller sees of a request. -/
inductive Reply where
  | response (stored : StoredResponse)
  | page (events : EventPage)
  | failed (failure : Failure)

inductive Request where
  | create (principal : String) (input : PreparedCreate config)
  | update (principal : String) (input : PreparedUpdate config)
  | deleteBead (principal : String) (input : PreparedDelete)
  | link (principal : String) (input : PreparedLink config)
  | changeAlias (principal : String) (input : PreparedAlias)
  | batch (principal : String) (input : PreparedBatch config)
  | events (principal source subject : String) (selection : EventSelection)

def Owner.transaction (owner : Owner) (callback : Store → Except Failure (Store × Reply)) :
    Owner × Reply :=
  if owner.fenced then (owner, .failed (.internal "store closed, fenced or nested"))
  else
    match callback owner.store with
    | .ok (store, reply) => ({ owner with store }, reply)
    | .error failure => ({ owner with fenced := failure.fences }, .failed failure)

namespace Request

variable {config}

/-- A decided operation; reading events decides nothing. -/
def decide (request : Request config) (clock : ℕ → ℕ) (store : Store) :
    Except Failure (Store × Reply) :=
  match request with
  | .create principal input => do
    let (store, stored) ← decideSingleton config principal input.key .createBead input.comparison
      (applyCreate config input (clock 0)) store
    pure (store, .response stored)
  | .update principal input => do
    let (store, stored) ← decideSingleton config principal input.key .updateBead input.comparison
      (applyUpdate config input (clock 0)) store
    pure (store, .response stored)
  | .deleteBead principal input => do
    let (store, stored) ← decideSingleton config principal input.key .deleteBead input.comparison
      (applyDelete config input (clock 0)) store
    pure (store, .response stored)
  | .link principal input => do
    let (store, stored) ← decideSingleton config principal input.key input.operation.operation
      input.comparison (applyLink config input (clock 0)) store
    pure (store, .response stored)
  | .changeAlias principal input => do
    let (store, stored) ← decideSingleton config principal input.key input.operation.operation
      input.comparison (applyAlias config input) store
    pure (store, .response stored)
  | .batch principal input => do
    let (store, stored) ← applyBatch principal input clock store
    pure (store, .response stored)
  | .events principal source subject selection => do
    let (store, page, _) ← Store.eventPage config principal source subject selection clock store
    pure (store, .page page)

def principal : Request config → String
  | .create principal _ => principal
  | .update principal _ => principal
  | .deleteBead principal _ => principal
  | .link principal _ => principal
  | .changeAlias principal _ => principal
  | .batch principal _ => principal
  | .events principal _ _ _ => principal

/-- Whether the request is decided, so that its principal has to be stable. -/
def decides : Request config → Bool
  | .events _ _ _ _ => false
  | _ => true

end Request

variable {config}

/-- Serve one request under the clock readings it makes. -/
def Owner.serve (owner : Owner) (request : Request config) (clock : ℕ → ℕ) : Owner × Reply :=
  if request.decides = true ∧ request.principal = "" then
    (owner, .failed (.internal "stable authenticated principal required"))
  else owner.transaction (request.decide clock)

variable (config)

/-- Served requests, with any number of closings and reopenings in between. -/
inductive Owner.Run (start : Owner) : Owner → Prop where
  | refl : Owner.Run start start
  | served {owner : Owner} (request : Request config) (clock : ℕ → ℕ)
      (run : Owner.Run start owner) : Owner.Run start (owner.serve request clock).1
  | reopened {owner : Owner} (run : Owner.Run start owner) :
      Owner.Run start { owner with fenced := false }

variable {config} in
def Owner.serveAll (owner : Owner) (requests : List (Request config × (ℕ → ℕ))) : Owner :=
  requests.foldl (fun owner entry ↦ (owner.serve entry.1 entry.2).1) owner

theorem Owner.run_serveAll (owner : Owner) (requests : List (Request config × (ℕ → ℕ))) :
    Owner.Run config owner (owner.serveAll requests) := by
  induction requests using List.reverseRecOn with
  | nil => exact .refl
  | append_singleton requests entry ih =>
    rw [Owner.serveAll, List.foldl_append]
    exact .served entry.1 entry.2 ih

/-- The owner of a newly provisioned store. -/
def Owner.provisioned : Owner := { store := Store.empty config, fenced := false }

/-- An owner that a run from a newly provisioned store leads to. -/
def Owner.Reachable (owner : Owner) : Prop := Owner.Run config (Owner.provisioned config) owner

end Bdp.Retained
