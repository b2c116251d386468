import Mathlib.Data.List.Basic
import Mathlib.Tactic.Common

/-!
# The joint read and sequence coordinator

The phase variable of the coordinator with the stack of its active entries. A synchronous entry is a
frame that holds the phase to restore; delegated code may call back into the coordinator while its
frame is on the stack. Reactions of promises run when the stack is empty. The owner and the read
plane may stop, settle and enter in every order.
-/

namespace Bdp.Coordination

section Data

inductive Phase where
  | constructing
  | constructionCleanup
  | accepting
  | submitting
  | bindingRead
  | reading
  | readCallback
  | closing
  | draining
  | closed
  deriving DecidableEq

def delegationActive (phase : Phase) : Bool :=
  phase = .submitting ∨ phase = .bindingRead ∨ phase = .reading ∨ phase = .closing

inductive Reason where
  | reentrant
  | notAccepting
  deriving DecidableEq

inductive Origin where
  | coordinator
  | owner
  | read
  deriving DecidableEq

structure Decision where
  reason : Reason
  origin : Origin
  deriving DecidableEq

/-- The entries that delegate to the owner or to the read plane. -/
inductive Entry where
  | submit
  | readFor
  | perform
  | resolveAlias
  deriving DecidableEq

def Entry.phase : Entry → Phase
  | .submit => .submitting
  | .readFor => .bindingRead
  | .perform | .resolveAlias => .reading

variable (ε : Type)

inductive Completion where
  | fulfilled
  | rejected (error : ε)
  deriving DecidableEq

structure Evidence where
  invocationFault : Option ε
  completion : Completion ε
  deriving DecidableEq

/-- How the joint completion is settled. -/
inductive Settlement where
  | resolved
  | closeError (owner read : Evidence ε)
  | entryError (decision : Decision)
  deriving DecidableEq

/-- An active synchronous entry, with the phase that it saved. -/
inductive Frame where
  | delegation (entry : Entry) (previous : Phase)
  | closeOwner
  | closeRead (ownerFault : Option ε)
  | callback (previous : Phase)
  | passedCallback
  | ownerEntry
  deriving DecidableEq

variable {ε}

def Evidence.firstError (evidence : Evidence ε) : Option ε :=
  match evidence.invocationFault, evidence.completion with
  | some error, _ => some error
  | none, .rejected error => some error
  | none, .fulfilled => none

def Settlement.rejects : Settlement ε → Bool
  | .resolved => false
  | _ => true

/-- An invocation of the owner or of the read plane. -/
def Frame.isDelegation : Frame ε → Bool
  | .delegation _ _ | .closeOwner | .closeRead _ => true
  | _ => false

end Data

variable {ε : Type}

section States

variable (ε) in
/-- `reactions` holds the faults that each registered reaction to both completions captured;
`settlements` records every settling of the joint promise. -/
structure State where
  phase : Phase
  stack : List (Frame ε)
  accepting : Bool
  observing : Bool
  owner : Option (Completion ε)
  read : Option (Completion ε)
  reactions : List (Option ε × Option ε)
  settlements : List (Settlement ε)
  deriving DecidableEq

/-- After construction, with the owner still observed. -/
def State.start : State ε := ⟨.accepting, [], true, true, none, none, [], []⟩

def Frame.isOwnerEntry : Frame ε → Bool
  | .ownerEntry => true
  | _ => false

/-- The owner is inside one of its synchronous entries. -/
def State.busy (state : State ε) : Bool := state.stack.any Frame.isOwnerEntry

def gate (admission : Bool) (state : State ε) : Option Decision :=
  if delegationActive state.phase then some ⟨.reentrant, .coordinator⟩
  else if state.phase = .readCallback then some ⟨.reentrant, .read⟩
  else if state.busy then some ⟨.reentrant, .owner⟩
  else if admission ∧ state.phase ≠ .accepting then some ⟨.notAccepting, .coordinator⟩
  else if admission ∧ ¬state.accepting then some ⟨.notAccepting, .owner⟩
  else none

def State.ending (state : State ε) : Bool :=
  state.phase = .constructionCleanup ∨ state.phase = .draining ∨ state.phase = .closed

/-- `close()` up to the invocation of the owner's close. -/
def close (state : State ε) : Except Decision (State ε) :=
  match gate false state with
  | some decision => .error decision
  | none =>
    if state.ending then .ok state
    else .ok { state with phase := .closing, stack := .closeOwner :: state.stack }

def failSettlement (decision : Decision) (state : State ε) : State ε :=
  { state with
    phase := .closed
    settlements := state.settlements ++ [.entryError decision] }

/-- The reaction to the owner's own completion. -/
def ownerFinished (state : State ε) : State ε :=
  if state.ending then state
  else
    match close state with
    | .ok state => state
    | .error decision => failSettlement decision state

/-- The settling of the joint completion from the evidence of both components. -/
def settlement (owner read : Evidence ε) : Settlement ε :=
  if owner.firstError.isSome || read.firstError.isSome then .closeError owner read else .resolved

end States

section Runs

inductive Event (ε : Type) where
  | call (entry : Entry)
  | close
  | ends (fault : Option ε)
  | callback
  | ownerEnters
  | ownerStops
  | ownerSettles (completion : Completion ε)
  | readSettles (completion : Completion ε)
  | ownerReaction
  | settleReaction
  deriving DecidableEq

/-- An admitted call saves the phase and delegates. -/
def enter (entry : Entry) (state : State ε) : State ε :=
  match gate true state with
  | some _ => state
  | none =>
    { state with phase := entry.phase, stack := .delegation entry state.phase :: state.stack }

/-- The innermost active entry returns or throws: every entry restores the phase that it saved, and
`close` goes on to the read plane and then drains. -/
def finish (fault : Option ε) (state : State ε) : State ε :=
  match state.stack with
  | [] => state
  | .delegation _ previous :: rest => { state with phase := previous, stack := rest }
  | .closeOwner :: rest => { state with stack := .closeRead fault :: rest }
  | .closeRead ownerFault :: rest =>
    { state with
      phase := .draining
      stack := rest
      reactions := state.reactions ++ [(ownerFault, fault)] }
  | .callback previous :: rest => { state with phase := previous, stack := rest }
  | .passedCallback :: rest | .ownerEntry :: rest => { state with stack := rest }

/-- `callback` around the clock and the token generator of the read plane. -/
def callback (state : State ε) : State ε :=
  if delegationActive state.phase ∨ state.phase = .readCallback then
    { state with stack := .passedCallback :: state.stack }
  else
    { state with phase := .readCallback, stack := .callback state.phase :: state.stack }

def ownerEnters (state : State ε) : State ε :=
  if state.busy then state else { state with stack := .ownerEntry :: state.stack }

def ownerReaction (state : State ε) : State ε :=
  if state.stack = [] ∧ state.owner.isSome ∧ state.observing then
    ownerFinished { state with observing := false }
  else state

def settleReaction (state : State ε) : State ε :=
  match state.stack, state.owner, state.read, state.reactions with
  | [], some owner, some read, (ownerFault, readFault) :: rest =>
    { state with
      phase := .closed
      reactions := rest
      settlements := state.settlements ++ [settlement ⟨ownerFault, owner⟩ ⟨readFault, read⟩] }
  | _, _, _, _ => state

/-- A step; an event that cannot happen changes nothing. -/
def next (state : State ε) : Event ε → State ε
  | .call entry => enter entry state
  | .close => (close state).toOption.getD state
  | .ends fault => finish fault state
  | .callback => callback state
  | .ownerEnters => ownerEnters state
  | .ownerStops => { state with accepting := false }
  | .ownerSettles completion => { state with owner := some (state.owner.getD completion) }
  | .readSettles completion => { state with read := some (state.read.getD completion) }
  | .ownerReaction => ownerReaction state
  | .settleReaction => settleReaction state

def run (state : State ε) (events : List (Event ε)) : State ε := events.foldl next state

/-- How an invocation of a close ended, if the event ends one. -/
def closeFault (state : State ε) : Event ε → Option (Option ε)
  | .ends fault =>
    match state.stack with
    | .closeOwner :: _ | .closeRead _ :: _ => some fault
    | _ => none
  | _ => none

/-- The faults of the invocations of both closes in a run, in their order. -/
def closeFaults (state : State ε) : List (Event ε) → List (Option ε)
  | [] => []
  | event :: events => (closeFault state event).toList ++ closeFaults (next state event) events

end Runs

end Bdp.Coordination
