import Bdp.Recovery.Store

/-!
# Sequence lifecycle

The owner that admits carriers and runs their members in scheduled turns. Its callbacks are
interleaved by the scheduler: a turn that fires while the owner is busy is deferred and fails its
attempt, and what is deferred runs before the owner is left. The environment of a step decides what
the scheduler, the store and the member executor do in it.
-/

namespace Bdp.Sequence

open Recovery

inductive LifecyclePhase where
  | admission
  | schedule
  | member
  | read
  | project
  | cleanup
  | maintenance
  | cancel
  | close
  deriving DecidableEq, Repr

structure Failure where
  phase : LifecyclePhase
  secondary : List LifecyclePhase
  deriving DecidableEq, Repr

def failure (phase : LifecyclePhase) : Failure := { phase, secondary := [] }

def append (prior : Option Failure) (phase : LifecyclePhase) : Failure :=
  match prior with
  | none => failure phase
  | some prior => { prior with secondary := prior.secondary ++ [phase] }

def fenced : Thrown → Bool
  | .store error => error.reason == .fenced
  | _ => false

inductive AttemptCleanupEvidence where
  | returned (releasedClaims : ℕ)
  | failed (error : Thrown)
  deriving DecidableEq

inductive Settlement where
  | resolved
  | rejected (failure : Failure) (cleanup : Option AttemptCleanupEvidence)
  deriving DecidableEq

/-- The turn of an attempt: none is scheduled, or the scheduler holds its callback. -/
inductive Token where
  | none
  | runnable
  deriving DecidableEq, Repr

structure Attempt where
  admission : Admission
  /-- Whether the carrier is a sequence, which projects its members. -/
  sequence : Bool
  next : ℕ
  token : Token
  cleanup : Option AttemptCleanupEvidence
  done : Bool
  /-- The calls of `resolve` and `reject`. -/
  settlements : List Settlement
  /-- The member indices that were run. -/
  ran : List ℕ

namespace Attempt

/-- A carrier has one key for each of its operations. -/
def operations (attempt : Attempt) : ℕ := attempt.admission.keys.length

end Attempt

inductive Phase where
  | accepting
  | draining
  | closed
  deriving DecidableEq, Repr

inductive Submission where
  /-- The carrier is refused before it is admitted. -/
  | refused
  /-- The carrier is only compared with what is retained. -/
  | inspected (fenced : Bool)
  | admits (sequence : Bool) (principal : String) (keys : List String) (fault : Fault)

inductive Entry where
  | submit (submission : Submission)
  | turn (id : ℕ)
  | maintain
  | read (fenced : Bool)
  | close

inductive Deferred where
  | fail (id : ℕ)
  | failMaintenance
  | drain
  deriving DecidableEq, Repr

inductive Stage where
  | idle
  | acting (entry : Entry)
  /-- The deferred callbacks are run. -/
  | leaving

/-- What `schedule` comes to; a failure may have failed again at the cancellation. -/
inductive Scheduling where
  | runnable
  | fails (secondary : List LifecyclePhase)

/-- What the member executor does with the store, and whether it throws. -/
inductive MemberScript where
  | throws (error : Thrown)
  | releases (fault : Fault)
  | executes (evaluate : MemberEvaluation) (fault : Fault) (after : Option Thrown)

/-- The choices of everything around the owner in one step. -/
structure Environment where
  /-- Whether the cancellation of the maintenance timer throws. -/
  maintenanceCancelFails : Bool
  /-- Whether the cancellation of an attempt's turn throws. -/
  cancelFails : ℕ → Bool
  /-- How the database treats the cleanup of an attempt. -/
  abandon : ℕ → Fault
  scheduling : Scheduling
  member : MemberScript
  projects : Bool
  assembles : Bool
  /-- Whether the maintenance period has more than one timer left. -/
  remains : Bool
  /-- The time of the maintenance, when the clock gives one. -/
  now : Option ℤ
  expire : Fault
  storeCloseFails : Bool

structure Lifecycle where
  store : RecoveryStore
  phase : Phase
  stage : Stage
  storeFenced : Bool
  closing : Bool
  fenceDrainScheduled : Bool
  ownerFailure : Option Failure
  /-- Whether the maintenance timer is armed. -/
  maintenance : Bool
  /-- Every attempt that was registered, in the order of the registrations. -/
  registry : ℕ → Option Attempt
  registered : ℕ
  /-- The attempts of the set, by their registrations. -/
  attempts : List ℕ
  deferred : List Deferred

namespace Lifecycle

/-- An owner that has just taken its store over. -/
def accepting (store : RecoveryStore) : Lifecycle :=
  { store, phase := .accepting, stage := .idle, storeFenced := false, closing := false
    fenceDrainScheduled := false, ownerFailure := none, maintenance := true
    registry := fun _ ↦ none, registered := 0, attempts := [], deferred := [] }

variable (config : RecoveryConfiguration) (environment : Environment) (state : Lifecycle)

def setAttempt (id : ℕ) (attempt : Attempt) : Lifecycle :=
  { state with registry := Function.update state.registry id (some attempt) }

/-- Put a failure behind the owner's first one. -/
def ownerFailed (f : Option Failure) : Option Failure :=
  match f with
  | none => state.ownerFailure
  | some f =>
    match state.ownerFailure with
    | none => some f
    | some prior => some (append (some prior) f.phase)

def shutdown (f : Option Failure) : Lifecycle :=
  let ownerFailure := state.ownerFailed f
  if state.phase = .closed then { state with ownerFailure }
  else
    let ownerFailure :=
      if state.maintenance ∧ environment.maintenanceCancelFails then
        some (append ownerFailure .cancel)
      else ownerFailure
    let draining := { state with ownerFailure, phase := .draining, maintenance := false }
    if state.storeFenced ∧ ¬ state.fenceDrainScheduled ∧ state.attempts ≠ [] then
      { draining with fenceDrainScheduled := true, deferred := state.deferred ++ [.drain] }
    else draining

/-- How an attempt ends: what it is settled with, the cleanup, and whether the owner must stop. -/
structure Ending where
  fault : Option Failure
  cleanup : AttemptCleanupEvidence
  fatal : Bool
  fenced : Bool

/-- The fault of an ending after the cancellation of its turn and the cleanup of its claims. -/
def ending (fault : Option Failure) (cancelFailed : Bool) (abandoned : Except Thrown ℕ) : Ending :=
  let fault := if cancelFailed then some (append fault .cancel) else fault
  match abandoned with
  | .ok count =>
    if fault = none ∧ count ≠ 0 then
      { fault := some (failure .cleanup), cleanup := .returned count, fatal := true
        fenced := false }
    else { fault, cleanup := .returned count, fatal := cancelFailed, fenced := false }
  | .error error =>
    { fault := some (append fault .cleanup), cleanup := .failed error, fatal := true
      fenced := Sequence.fenced error }

/-- The promise is rejected with a fault, and resolved without one. -/
def Ending.settlement (ending : Ending) : Settlement :=
  match ending.fault with
  | some fault => .rejected fault (some ending.cleanup)
  | none => .resolved

/-- Settle an attempt that is not done, and take it out of the set. -/
def settle (id : ℕ) (attempt : Attempt) (fault : Option Failure) : Lifecycle × Ending :=
  let (store, abandoned) :=
    state.store.abandonAttempt (environment.abandon id) attempt.admission
  let ending := ending fault
    (decide (attempt.token = .runnable) && environment.cancelFails id) abandoned
  let settled := { attempt with
    done := true, token := .none, cleanup := some ending.cleanup
    settlements := attempt.settlements ++ [ending.settlement] }
  ({ state.setAttempt id settled with
      store, storeFenced := state.storeFenced || ending.fenced
      attempts := state.attempts.filter fun other ↦ other ≠ id }, ending)

/-- The fault is none when the attempt ends with a result. The answer is whether the owner was
notified. -/
def finish (id : ℕ) (fault : Option Failure) : Lifecycle × Bool :=
  match state.registry id with
  | none => (state, false)
  | some attempt =>
    if attempt.done then (state, false)
    else
      let (settled, ending) := state.settle environment id attempt fault
      if ending.fatal then (settled.shutdown environment ending.fault, true)
      else (settled, false)

/-- End an attempt and make sure that the owner stops. -/
def finishAndStop (id : ℕ) (fault : Failure) : Lifecycle :=
  let (ended, notified) := state.finish environment id (some fault)
  if notified then ended else ended.shutdown environment (some fault)

def scheduleMember (id : ℕ) : Lifecycle :=
  match environment.scheduling with
  | .runnable =>
    match state.registry id with
    | some attempt => state.setAttempt id { attempt with token := .runnable }
    | none => state
  | .fails secondary => state.finishAndStop environment id { phase := .schedule, secondary }

/-- What a fenced owner ends its attempts with. -/
def fenceFault : Failure :=
  match state.ownerFailure with
  | some first => failure first.phase
  | none => failure .member

/-- The calls that the member executor makes of the store for one member. -/
def runMember (store : RecoveryStore) (attempt : Attempt) :
    MemberScript → RecoveryStore × Except Thrown Unit
  | .throws error => (store, .error error)
  | .releases fault =>
    match attempt.admission.keys[attempt.next]? with
    | none => (store, .error (.caller "prepared carrier lost its member"))
    | some key =>
      let (store, released) := store.releaseOwnedClaim fault attempt.admission key
      (store, released.map fun _ ↦ ())
  | .executes evaluate fault after =>
    match attempt.admission.keys[attempt.next]? with
    | none => (store, .error (.caller "prepared carrier lost its member"))
    | some key =>
      let (store, completion) := store.executeMember config fault attempt.admission key evaluate
      match completion, after with
      | .error error, _ => (store, .error error)
      | .ok _, some error => (store, .error error)
      | .ok _, none => (store, .ok ())

/-- What follows a member that was run: its projection, and the next turn or the result. -/
def memberRan (id : ℕ) (attempt : Attempt) : Lifecycle :=
  if attempt.sequence ∧ ¬ environment.projects then
    (state.finish environment id (some (failure .project))).1
  else
    let advanced := state.setAttempt id { attempt with next := attempt.next + 1 }
    if attempt.next + 1 = attempt.operations then
      if attempt.sequence ∧ ¬ environment.assembles then
        (advanced.finish environment id (some (failure .project))).1
      else (advanced.finish environment id none).1
    else advanced.scheduleMember environment id

def turn (id : ℕ) : Lifecycle :=
  match state.registry id with
  | none => state
  | some attempt =>
    if attempt.done then state
    else if state.storeFenced then (state.finish environment id (some state.fenceFault)).1
    else
      let (store, result) := runMember config state.store attempt environment.member
      let ran := { attempt with ran := attempt.ran ++ [attempt.next] }
      let called := { state.setAttempt id ran with store }
      match result with
      | .ok () => called.memberRan environment id ran
      | .error error =>
        let marked := { called with storeFenced := called.storeFenced || Sequence.fenced error }
        let (ended, fatal) := marked.finish environment id (some (failure .member))
        if ended.storeFenced ∧ ¬ fatal then ended.shutdown environment (some (failure .member))
        else ended

def armPeriod : Lifecycle :=
  if state.phase = .accepting then
    match environment.scheduling with
    | .runnable => { state with maintenance := true }
    | .fails secondary => state.shutdown environment (some { phase := .schedule, secondary })
  else state

/-- The clock of the maintenance, and the expiry of the store. -/
def expire : RecoveryStore × Except Thrown Unit :=
  match environment.now with
  | none => (state.store, .error (.caller "maintenance epoch must be nonnegative safe integer"))
  | some now => state.store.expire environment.expire now

def maintain : Lifecycle :=
  if environment.remains then state.armPeriod environment
  else
    let (store, result) := state.expire environment
    let expired := { state with store }
    match result with
    | .ok () => expired.armPeriod environment
    | .error error =>
      { expired with storeFenced := expired.storeFenced || Sequence.fenced error }.shutdown
        environment (some (failure .maintenance))

def readFails (isFenced : Bool) : Lifecycle :=
  if isFenced then
    { state with storeFenced := true }.shutdown environment (some (failure .read))
  else state

/-- Register an admitted attempt and schedule its first member. -/
def register (sequence : Bool) (admission : Admission) : Lifecycle :=
  let attempt : Attempt :=
    { admission, sequence, next := 0, token := .none, cleanup := none, done := false
      settlements := [], ran := [] }
  let registered := { state.setAttempt state.registered attempt with
    registered := state.registered + 1, attempts := state.attempts ++ [state.registered] }
  registered.scheduleMember environment state.registered

def submit : Submission → Lifecycle
  | .refused => state
  | .inspected isFenced =>
    if state.phase = .accepting then state.readFails environment isFenced else state
  | .admits sequence principal keys fault =>
    if state.phase = .accepting then
      let (store, admitted) :=
        state.store.admitMembers config fault principal keys fun _ ↦ none
      let called := { state with store }
      match admitted with
      | .ok admission => called.register environment sequence admission
      | .error error =>
        if Sequence.fenced error then
          { called with storeFenced := true }.shutdown environment (some (failure .admission))
        else called
    else state

def act : Entry → Lifecycle
  | .submit submission => state.submit config environment submission
  | .turn id => state.turn config environment id
  | .maintain => state.maintain environment
  | .read isFenced =>
    if state.phase = .accepting then state.readFails environment isFenced else state
  | .close => state.shutdown environment none

def drain : Lifecycle :=
  let drained := state.attempts.foldl
    (fun state id ↦ (state.finish environment id (some state.fenceFault)).1) state
  { drained with fenceDrainScheduled := false }

def runDeferred : Deferred → Lifecycle
  | .fail id => state.finishAndStop environment id (failure .schedule)
  | .failMaintenance => state.shutdown environment (some (failure .schedule))
  | .drain => state.drain environment

def closeIfDrained : Lifecycle :=
  if state.phase = .draining ∧ state.attempts = [] ∧ ¬ state.closing then
    { state with
      closing := true, store := state.store.close, phase := .closed
      ownerFailure :=
        if environment.storeCloseFails then some (append state.ownerFailure .close)
        else state.ownerFailure }
  else state

/-- A turn whose callback the scheduler has invoked is no longer runnable. -/
def takeTurn (id : ℕ) (attempt : Attempt) : Lifecycle :=
  state.setAttempt id { attempt with token := .none }

end Lifecycle

/-- One step of the owner: it is entered, acts, runs what was deferred and is left; and while it is
busy the scheduler may invoke any callback that it holds. -/
inductive Step (config : RecoveryConfiguration) : Lifecycle → Lifecycle → Prop where
  | submit {state : Lifecycle} (submission : Submission) (idle : state.stage = .idle) :
    Step config state { state with stage := .acting (.submit submission) }
  | read {state : Lifecycle} (fenced : Bool) (idle : state.stage = .idle) :
    Step config state { state with stage := .acting (.read fenced) }
  | close {state : Lifecycle} (idle : state.stage = .idle) :
    Step config state { state with stage := .acting .close }
  | turn {state : Lifecycle} {id : ℕ} {attempt : Attempt} (idle : state.stage = .idle)
      (held : state.registry id = some attempt) (runnable : attempt.token = .runnable) :
    Step config state { state.takeTurn id attempt with stage := .acting (.turn id) }
  | maintain {state : Lifecycle} (idle : state.stage = .idle) (armed : state.maintenance = true) :
    Step config state { state with maintenance := false, stage := .acting .maintain }
  | reentrantTurn {state : Lifecycle} {id : ℕ} {attempt : Attempt} (busy : state.stage ≠ .idle)
      (held : state.registry id = some attempt) (runnable : attempt.token = .runnable) :
    Step config state
      { state.takeTurn id attempt with deferred := state.deferred ++ [.fail id] }
  | reentrantMaintenance {state : Lifecycle} (busy : state.stage ≠ .idle)
      (armed : state.maintenance = true) :
    Step config state
      { state with maintenance := false, deferred := state.deferred ++ [.failMaintenance] }
  | act {state : Lifecycle} {entry : Entry} (environment : Environment)
      (acting : state.stage = .acting entry) :
    Step config state { state.act config environment entry with stage := .leaving }
  | deferred {state : Lifecycle} {first : Deferred} {rest : List Deferred}
      (environment : Environment) (leaving : state.stage = .leaving)
      (queued : state.deferred = first :: rest) :
    Step config state
      { { state with deferred := rest }.runDeferred environment first with stage := .leaving }
  | leave {state : Lifecycle} (environment : Environment) (leaving : state.stage = .leaving)
      (empty : state.deferred = []) :
    Step config state { state.closeIfDrained environment with stage := .idle }

/-- The steps of an owner from the store that it takes over. -/
inductive Run (config : RecoveryConfiguration) (store : RecoveryStore) : Lifecycle → Prop where
  | start : Run config store (.accepting store)
  | step {state next : Lifecycle} (run : Run config store state) (step : Step config state next) :
    Run config store next

end Bdp.Sequence
