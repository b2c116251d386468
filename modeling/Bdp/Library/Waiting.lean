import Mathlib

/-!
# Waiting with one deadline

An attempt is repeated while it fails for a reason that may pass. The clock is read after each such
failure, and the deadline is never renewed. Attempts, readings and aborts are sequences, so that a
wait is a computation on everything that can happen to it.
-/

namespace Bdp

variable {ε α τ : Type} [LinearOrder τ]

/-- How a wait ends. -/
inductive WaitOutcome (ε α : Type) where
  | settled (value : α)
  | failed (error : ε)
  | timedOut
  | aborted
  /-- A reading that is no time, or that goes back. -/
  | clockFault
  deriving DecidableEq, Repr

section Wait

variable (retryable : ε → Bool) (attempt : ℕ → Except ε α) (clock : ℕ → Option τ)
variable (aborted : ℕ → Bool) (deadline : τ)

/-- The turns of a wait from an attempt on, as far as the fuel goes: the last attempt or abort, and
the outcome. The reading behind attempt `index` is `clock (index + 1)`. -/
def waitFrom : ℕ → ℕ → τ → Option (ℕ × WaitOutcome ε α)
  | 0, _, _ => none
  | fuel + 1, index, previous =>
    if aborted index = true then some (index, .aborted)
    else
      match attempt index with
      | .ok value => some (index, .settled value)
      | .error error =>
        if retryable error = false then some (index, .failed error)
        else
          match clock (index + 1) with
          | none => some (index, .clockFault)
          | some current =>
            if current < previous then some (index, .clockFault)
            else if deadline ≤ current then some (index, .timedOut)
            else waitFrom fuel (index + 1) current

/-- An attempt that is followed by another one: it failed for a reason that may pass, and the
reading behind it was before the deadline. -/
def Retried (index : ℕ) : Prop :=
  (∃ error, attempt index = .error error ∧ retryable error = true) ∧
    ∃ current, clock (index + 1) = some current ∧ current < deadline

/-- What the last turn of a wait shows. -/
def Concluded (index : ℕ) : WaitOutcome ε α → Prop
  | .settled value => attempt index = .ok value
  | .failed error => attempt index = .error error ∧ retryable error = false
  | .timedOut => (∃ error, attempt index = .error error ∧ retryable error = true) ∧
      ∃ current, clock (index + 1) = some current ∧ deadline ≤ current
  | .aborted => aborted index = true
  | .clockFault => ∃ error, attempt index = .error error ∧ retryable error = true

variable {retryable attempt clock aborted deadline}
variable {previous : τ}

theorem waitFrom_spec {fuel index last : ℕ} {outcome : WaitOutcome ε α}
    (h : waitFrom retryable attempt clock aborted deadline fuel index previous =
      some (last, outcome)) :
    index ≤ last ∧
      (∀ turn, index ≤ turn → turn < last → Retried retryable attempt clock deadline turn) ∧
      Concluded retryable attempt clock aborted deadline last outcome := by
  induction fuel generalizing index previous with
  | zero => cases h
  | succ fuel ih =>
    have here (concluded : Concluded retryable attempt clock aborted deadline index outcome) :
        index ≤ index ∧ (∀ turn, index ≤ turn → turn < index →
            Retried retryable attempt clock deadline turn) ∧
          Concluded retryable attempt clock aborted deadline index outcome :=
      ⟨le_rfl, fun turn le lt ↦ absurd lt (not_lt.mpr le), concluded⟩
    unfold waitFrom at h
    split at h
    next signalled =>
      cases h
      exact here signalled
    next =>
      split at h
      next value returned =>
        cases h
        exact here returned
      next error refused =>
        split at h
        next final =>
          cases h
          exact here ⟨refused, final⟩
        next again =>
          have passing : retryable error = true := by simpa using again
          split at h
          next =>
            cases h
            exact here ⟨error, refused, passing⟩
          next current reading =>
            split at h
            · cases h
              exact here ⟨error, refused, passing⟩
            · split at h
              next late =>
                cases h
                exact here ⟨⟨error, refused, passing⟩, current, reading, late⟩
              next early =>
                obtain ⟨le, retried, concluded⟩ := ih h
                refine ⟨(Nat.le_succ index).trans le, ?_, concluded⟩
                intro turn after before
                cases Nat.eq_or_lt_of_le after with
                | inl same =>
                  rw [← same]
                  exact ⟨⟨error, refused, passing⟩, current, reading, not_le.mp early⟩
                | inr later => exact retried turn later before

/-- A clock that reaches the deadline ends every wait. -/
theorem waitFrom_isSome {fuel index : ℕ} (reached : ∃ turn, index ≤ turn ∧ turn < index + fuel ∧
      ∀ current, clock (turn + 1) = some current → deadline ≤ current) :
    (waitFrom retryable attempt clock aborted deadline fuel index previous).isSome = true := by
  induction fuel generalizing index previous with
  | zero =>
    obtain ⟨turn, after, before, _⟩ := reached
    omega
  | succ fuel ih =>
    unfold waitFrom
    split
    · rfl
    · split
      · rfl
      · split
        · rfl
        · split
          · rfl
          next current reading =>
            split
            · rfl
            · split
              · rfl
              next early =>
                obtain ⟨turn, after, before, late⟩ := reached
                apply ih
                refine ⟨turn, ?_, by omega, late⟩
                by_contra earlier
                have same : turn = index := by omega
                rw [same] at late
                exact early (late current reading)

end Wait

end Bdp
