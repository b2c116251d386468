import Mathlib.Data.List.Infix
import Mathlib.Data.Nat.Notation

/-!
# Delivery loops

A loop that writes the items of a packet one by one into a sink and pulls the next packet from the
continuation of the one before. The sink may refuse an item, or break behind one that it took; the
loop may be aborted at its turns, at its waits and at the heartbeats between them. What is written
is always a prefix of what was pulled.
-/

namespace Bdp

variable {ε ι κ : Type}

/-- How a sink takes one frame. -/
inductive WriteOutcome where
  | drained
  /-- Closed or aborted before the write. -/
  | refused
  /-- Taken, but closed or aborted before the drain. -/
  | broken
  deriving DecidableEq, Repr

structure Packet (ι κ : Type) where
  items : List ι
  continuation : κ
  caughtUp : Bool
  deriving DecidableEq

/-- What the surroundings do at one turn of the loop. -/
structure PumpTurn where
  aborted : Bool
  sink : ℕ → WriteOutcome
  /-- The heartbeat, when one is due. -/
  heartbeat : Option WriteOutcome
  /-- Whether the wait behind the packet is aborted; the wait depends on having caught up. -/
  interrupted : Bool → Bool

/-- Write items one by one. What is written, and whether the loop goes on. -/
def writeItems (sink : ℕ → WriteOutcome) : ℕ → List ι → List ι × Bool
  | _, [] => ([], true)
  | index, item :: items =>
    match sink index with
    | .refused => ([], false)
    | .broken => ([item], false)
    | .drained => (item :: (writeItems sink (index + 1) items).1, (writeItems sink (index + 1) items).2)

/-- The items that some turns of the loop write. -/
def pump (next : ℕ → κ → Except ε (Packet ι κ)) (turns : ℕ → PumpTurn) :
    ℕ → ℕ → Packet ι κ → List ι
  | 0, _, _ => []
  | fuel + 1, turn, packet =>
    if (turns turn).aborted then []
    else
      let written := writeItems (turns turn).sink 0 packet.items
      if written.2 = true ∧ (turns turn).heartbeat.all (· == .drained) = true ∧
          (turns turn).interrupted packet.caughtUp = false then
        match next turn packet.continuation with
        | .ok following => written.1 ++ pump next turns fuel (turn + 1) following
        | .error _ => written.1
      else written.1

/-- The packet that the loop holds at a turn, with all items that were pulled until then. -/
inductive Pulled (next : ℕ → κ → Except ε (Packet ι κ)) (initial : Packet ι κ) :
    ℕ → Packet ι κ → List ι → Prop where
  | initial : Pulled next initial 0 initial initial.items
  | next {turn : ℕ} {packet following : Packet ι κ} {items : List ι}
      (pulled : Pulled next initial turn packet items)
      (step : next turn packet.continuation = .ok following) :
      Pulled next initial (turn + 1) following (items ++ following.items)

variable {next : ℕ → κ → Except ε (Packet ι κ)} {initial packet : Packet ι κ}
variable {turns : ℕ → PumpTurn} {fuel turn : ℕ} {before : List ι}

/-- A packet is written in order, and to its end when the loop goes on. -/
theorem writeItems_prefix {sink : ℕ → WriteOutcome} {index : ℕ} (items : List ι) :
    (writeItems sink index items).1 <+: items ∧
      ((writeItems sink index items).2 = true → (writeItems sink index items).1 = items) := by
  induction items generalizing index with
  | nil => exact ⟨List.prefix_refl _, fun _ ↦ rfl⟩
  | cons item items ih =>
    unfold writeItems
    cases sink index with
    | refused => exact ⟨List.nil_prefix, nofun⟩
    | broken => exact ⟨⟨items, rfl⟩, nofun⟩
    | drained =>
      have rest : (writeItems sink (index + 1) items).1 <+: items ∧ _ := ih
      exact ⟨List.prefix_cons_inj item |>.mpr rest.1, fun on ↦ congrArg _ (rest.2 on)⟩

/-- What the loop has written is a prefix of what it has pulled. -/
theorem pump_delivers (pulled : Pulled next initial turn packet (before ++ packet.items)) :
    ∃ last held items, last ≤ turn + fuel ∧ Pulled next initial last held items ∧
      before ++ pump next turns fuel turn packet <+: items := by
  induction fuel generalizing turn packet before with
  | zero =>
    refine ⟨turn, packet, _, le_rfl, pulled, ?_⟩
    unfold pump
    rw [List.append_nil]
    exact List.prefix_append _ _
  | succ fuel ih =>
    have kept {written : List ι} (partly : written <+: packet.items) :
        ∃ last held items, last ≤ turn + (fuel + 1) ∧ Pulled next initial last held items ∧
          before ++ written <+: items :=
      ⟨turn, packet, _, Nat.le_add_right _ _, pulled, (List.prefix_append_right_inj _).mpr partly⟩
    have written : (writeItems (turns turn).sink 0 packet.items).1 <+: packet.items ∧ _ :=
      writeItems_prefix packet.items
    unfold pump
    split
    · exact kept List.nil_prefix
    · dsimp only
      split
      next goes_on =>
        cases step : next turn packet.continuation with
        | error failure => exact kept written.1
        | ok following =>
          have whole := written.2 goes_on.1
          obtain ⟨last, held, items, bound, reached, delivered⟩ := ih (.next pulled step)
          refine ⟨last, held, items, by omega, reached, ?_⟩
          dsimp only
          rw [whole, ← List.append_assoc]
          exact delivered
      next => exact kept written.1

end Bdp
