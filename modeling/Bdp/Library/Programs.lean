import Mathlib.Data.List.Basic

/-!
# Programs that issue commands

A program reads a state, issues commands that change it, and may stop with an error. Every command
is recorded when it is issued, also one that the state refuses. A quiet program issues nothing. The
rules say when an error of a given kind means that nothing was issued before it.
-/

namespace Bdp

/-- Programs over a state of type `σ` with commands of type `κ`. -/
abbrev Program (σ κ ε : Type) := ExceptT ε (StateM (σ × List κ))

namespace Program

variable {σ κ ε α β : Type}

/-- Run a program; the result comes with the state and the commands that it leaves. -/
def runFrom (program : Program σ κ ε α) (start : σ × List κ) : Except ε α × σ × List κ :=
  program start

/-- A checked computation over the current state. -/
def reading (read : σ → Except ε α) : Program σ κ ε α := fun start ↦ (read start.1, start)

/-- Issue one command. -/
def issue (perform : κ → σ → Except ε σ) (command : κ) : Program σ κ ε Unit := fun start ↦
  match perform command start.1 with
  | .ok next => (.ok (), next, start.2 ++ [command])
  | .error error => (.error error, start.1, start.2 ++ [command])

variable (read : σ → Except ε α)

@[simp]
theorem runFrom_reading (start : σ × List κ) :
    runFrom (reading read) start = (read start.1, start) := rfl

theorem runFrom_bind (first : Program σ κ ε α) (next : α → Program σ κ ε β) (start : σ × List κ) :
    runFrom (first >>= next) start = match runFrom first start with
      | (.ok value, after) => runFrom (next value) after
      | (.error error, after) => (.error error, after) := by
  change (ExceptT.bindCont next (runFrom first start).1) (runFrom first start).2 = _
  cases runFrom first start with
  | mk result after => cases result <;> rfl

/-- Two computations over one state are one. -/
theorem reading_bind_reading (next : α → σ → Except ε β) :
    (reading read >>= fun value ↦ reading (next value) : Program σ κ ε β) =
      reading fun state ↦ read state >>= fun value ↦ next value state := by
  funext start
  change runFrom (reading read >>= _) start = _
  rw [runFrom_bind, runFrom_reading]
  cases hread : read start.1 with
  | ok value => simp only [reading, hread]; rfl
  | error error => simp only [reading, hread]; rfl

theorem pure_eq_reading (value : α) :
    (pure value : Program σ κ ε α) = reading fun _ ↦ pure value := rfl

/-- A program that issues nothing. -/
def Quiet (program : Program σ κ ε α) : Prop :=
  ∀ start, (program.runFrom start).2 = start

/-- No error of the kind comes out of the program. -/
def Never (P : ε → Prop) (program : Program σ κ ε α) : Prop :=
  ∀ start error, (program.runFrom start).1 = .error error → ¬ P error

/-- After an error of the kind, nothing has been issued. -/
def Clean (P : ε → Prop) (program : Program σ κ ε α) : Prop :=
  ∀ start error, (program.runFrom start).1 = .error error → P error →
    (program.runFrom start).2 = start

variable {P : ε → Prop} {first : Program σ κ ε α} {next : α → Program σ κ ε β}

theorem quiet_reading : Quiet (reading read : Program σ κ ε α) :=
  fun _ ↦ rfl

theorem never_reading {read : σ → Except ε α}
    (h : ∀ state error, read state = .error error → ¬ P error) :
    Never P (reading read : Program σ κ ε α) := fun start error herror ↦ h start.1 error herror

theorem never_pure (value : α) : Never P (pure value : Program σ κ ε α) := by
  intro start error h
  cases h

theorem Never.bind (hfirst : Never P first) (hnext : ∀ value, Never P (next value)) :
    Never P (first >>= next) := by
  intro start error h
  rw [runFrom_bind] at h
  cases hrun : runFrom first start with
  | mk result after =>
    rw [hrun] at h
    cases result with
    | error other =>
      obtain rfl := Except.error.inj h
      exact hfirst start other (by rw [hrun])
    | ok value => exact hnext value after error h

theorem never_issue {perform : κ → σ → Except ε σ} {command : κ}
    (h : ∀ state error, perform command state = .error error → ¬ P error) :
    Never P (issue perform command) := by
  intro start error herror
  change (runFrom (issue perform command) start).1 = _ at herror
  unfold runFrom issue at herror
  cases hperform : perform command start.1 with
  | ok state =>
    rw [hperform] at herror
    cases herror
  | error other =>
    rw [hperform] at herror
    obtain rfl := Except.error.inj herror
    exact h start.1 other hperform

theorem never_forM {items : List α} {body : α → Program σ κ ε PUnit}
    (h : ∀ item, Never P (body item)) : Never P (items.forM body) := by
  induction items with
  | nil => exact never_pure _
  | cons item items ih => exact (h item).bind fun _ ↦ ih

theorem Never.clean (h : Never P first) : Clean P first :=
  fun start error herror hP ↦ absurd hP (h start error herror)

/-- What comes before the first command may fail in every way. -/
theorem Quiet.clean_bind (hfirst : Quiet first) (hnext : ∀ value, Clean P (next value)) :
    Clean P (first >>= next) := by
  intro start error h hP
  rw [runFrom_bind] at h ⊢
  have hquiet := hfirst start
  cases hrun : runFrom first start with
  | mk result after =>
    rw [hrun] at h hquiet
    obtain rfl : after = start := hquiet
    cases result with
    | error other => rfl
    | ok value => exact hnext value after error h hP

end Program

end Bdp
