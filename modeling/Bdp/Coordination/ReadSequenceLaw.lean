import Bdp.Coordination.ReadSequence

/-!
# Every order of entries, callbacks and completions

At most one frame on the stack ever holds the phase away from its resting value, and the phase below
it is known. The ledger follows the closing from the first invocation to the one settlement.
-/

namespace Bdp.Coordination

variable {ε : Type}
variable {other : State ε} {frame : Frame ε}

section Frames

def Frame.isSolid : Frame ε → Bool
  | .delegation _ _ | .closeOwner | .closeRead _ | .callback _ => true
  | .passedCallback | .ownerEntry => false

def State.solids (state : State ε) : List (Frame ε) := state.stack.filter Frame.isSolid

/-- The phase while a frame is the only one that changes it. -/
def Frame.inside : Frame ε → Phase
  | .delegation entry _ => entry.phase
  | .closeOwner | .closeRead _ => .closing
  | _ => .readCallback

def Frame.outside : Frame ε → Phase
  | .delegation _ previous | .callback previous => previous
  | _ => .draining

/-- The stage of the closing that a frame is in. -/
def Frame.closingStage : Frame ε → Option (Frame ε)
  | .closeOwner => some .closeOwner
  | .closeRead ownerFault => some (.closeRead ownerFault)
  | _ => none

theorem State.solids_cons (hframe : frame.isSolid = true)
    {state : State ε} (hstack : other.stack = frame :: state.stack) :
    other.solids = frame :: state.solids := by
  rw [State.solids, hstack, List.filter_cons_of_pos hframe]
  rfl

theorem Frame.isSolid_of_isDelegation (hdelegation : frame.isDelegation = true) :
    frame.isSolid = true := by
  cases frame <;> simp_all [Frame.isDelegation, Frame.isSolid]

theorem Frame.inside_active (frame : Frame ε) :
    delegationActive frame.inside = true ∨ frame.inside = .readCallback := by
  cases frame with
  | delegation entry previous =>
    cases entry <;> simp [Frame.inside, Entry.phase, delegationActive]
  | _ => simp [Frame.inside, delegationActive]

end Frames

section Ledger

/-- What has become of the closing at a resting phase: nothing, an invocation in progress, both
invocations over, or the settlement. -/
inductive Ledger (state : State ε) : Phase → Option (Frame ε) → List (Option ε) → Prop
  | idle (hobserving : state.observing = true) (hreactions : state.reactions = [])
      (hsettlements : state.settlements = []) : Ledger state .accepting none []
  | invokingOwner (hreactions : state.reactions = []) (hsettlements : state.settlements = []) :
      Ledger state .draining (some .closeOwner) []
  | invokingRead {ownerFault : Option ε} (hreactions : state.reactions = [])
      (hsettlements : state.settlements = []) :
      Ledger state .draining (some (.closeRead ownerFault)) [ownerFault]
  | waiting {ownerFault readFault : Option ε}
      (hreactions : state.reactions = [(ownerFault, readFault)])
      (hsettlements : state.settlements = []) :
      Ledger state .draining none [ownerFault, readFault]
  | settled {ownerFault readFault : Option ε} {owner read : Completion ε}
      (hreactions : state.reactions = [])
      (hsettlements : state.settlements = [settlement ⟨ownerFault, owner⟩ ⟨readFault, read⟩])
      (howner : state.owner = some owner) (hread : state.read = some read) :
      Ledger state .closed none [ownerFault, readFault]

/-- No frame changes the phase, or exactly one does. -/
inductive Consistent (state : State ε) (faults : List (Option ε)) : Prop
  | resting (hsolids : state.solids = []) (hledger : Ledger state state.phase none faults)
  | within (frame : Frame ε) (hsolids : state.solids = [frame])
      (hphase : state.phase = frame.inside)
      (hledger : Ledger state frame.outside frame.closingStage faults)

variable {state : State ε} {faults : List (Option ε)}

theorem Ledger.transfer {phase : Phase} {stage : Option (Frame ε)}
    (hledger : Ledger state phase stage faults) (hobserving : other.observing = state.observing)
    (hreactions : other.reactions = state.reactions)
    (hsettlements : other.settlements = state.settlements)
    (howner : ∀ owner, state.owner = some owner → other.owner = some owner)
    (hread : ∀ read, state.read = some read → other.read = some read) :
    Ledger other phase stage faults := by
  cases hledger with
  | idle observing reactions settlements =>
    exact .idle (hobserving.trans observing) (hreactions.trans reactions)
      (hsettlements.trans settlements)
  | invokingOwner reactions settlements =>
    exact .invokingOwner (hreactions.trans reactions) (hsettlements.trans settlements)
  | invokingRead reactions settlements =>
    exact .invokingRead (hreactions.trans reactions) (hsettlements.trans settlements)
  | waiting reactions settlements =>
    exact .waiting (hreactions.trans reactions) (hsettlements.trans settlements)
  | settled reactions settlements owner read =>
    exact .settled (hreactions.trans reactions) (hsettlements.trans settlements)
      (howner _ owner) (hread _ read)

theorem Ledger.phase_cases {phase : Phase} {stage : Option (Frame ε)}
    (hledger : Ledger state phase stage faults) :
    phase = .accepting ∨ phase = .draining ∨ phase = .closed := by
  cases hledger <;> simp

theorem consistent_start : Consistent (State.start : State ε) [] := .resting rfl (.idle rfl rfl rfl)

theorem Consistent.of_gate {admission : Bool}
    (hconsistent : Consistent state faults) (hgate : gate admission state = none) :
    state.solids = [] ∧ Ledger state state.phase none faults ∧
      (admission = true → state.phase = .accepting ∧ state.accepting = true) := by
  unfold gate at hgate
  split_ifs at hgate with hactive hcallback hbusy hphase haccepting
  cases hconsistent with
  | resting hsolids hledger =>
    refine ⟨hsolids, hledger, fun hadmission ↦ ?_⟩
    subst hadmission
    simpa using And.intro hphase haccepting
  | within frame hsolids hinside hledger =>
    rw [hinside] at hactive hcallback
    exact (frame.inside_active.elim hactive hcallback).elim

end Ledger

section Steps

variable {state : State ε} {faults : List (Option ε)}

section

variable (hconsistent : Consistent state faults)
include hconsistent

theorem enter_consistent (entry : Entry) : Consistent (enter entry state) faults := by
  unfold enter
  split
  · exact hconsistent
  · rename_i hgate
    obtain ⟨hsolids, hledger, -⟩ := hconsistent.of_gate hgate
    refine .within (.delegation entry state.phase) ?_ rfl ?_
    · rw [State.solids_cons rfl rfl, hsolids]
    · exact hledger.transfer rfl rfl rfl (fun _ h ↦ h) fun _ h ↦ h

theorem close_consistent {closed : State ε}
    (hclose : close state = .ok closed) : Consistent closed faults := by
  unfold close at hclose
  split at hclose
  · cases hclose
  · rename_i hgate
    obtain ⟨hsolids, hledger, -⟩ := hconsistent.of_gate hgate
    split at hclose
    · cases hclose
      exact hconsistent
    · rename_i hending
      cases hclose
      refine .within .closeOwner (by rw [State.solids_cons rfl rfl, hsolids]) rfl ?_
      generalize hphase : state.phase = phase at hledger
      cases hledger with
      | idle hobserving hreactions hsettlements => exact .invokingOwner hreactions hsettlements
      | waiting => simp [State.ending, hphase] at hending
      | settled => simp [State.ending, hphase] at hending

theorem ownerReaction_consistent : Consistent (ownerReaction state) faults := by
  unfold ownerReaction
  split
  · rename_i hreaction
    have hsolids : state.solids = [] := by rw [State.solids, hreaction.1]; rfl
    have hledger : Ledger state state.phase none faults := by
      cases hconsistent with
      | resting _ hledger => exact hledger
      | within frame hframe =>
        rw [hsolids] at hframe
        cases hframe
    obtain ⟨phase, hphase⟩ : ∃ phase, state.phase = phase := ⟨_, rfl⟩
    rw [hphase] at hledger
    cases hledger with
    | idle hobserving hreactions hsettlements =>
      have hfinished : ownerFinished { state with observing := false } =
          { state with phase := .closing, stack := [.closeOwner], observing := false } := by
        simp [ownerFinished, close, gate, State.ending, State.busy, delegationActive, hphase,
          hreaction.1]
      rw [hfinished]
      exact .within .closeOwner rfl rfl (.invokingOwner hreactions hsettlements)
    | waiting hreactions hsettlements =>
      rw [ownerFinished, if_pos (by simp [State.ending, hphase])]
      refine .resting hsolids ?_
      change Ledger _ state.phase none _
      rw [hphase]
      exact .waiting hreactions hsettlements
    | settled hreactions hsettlements howner hread =>
      rw [ownerFinished, if_pos (by simp [State.ending, hphase])]
      refine .resting hsolids ?_
      change Ledger _ state.phase none _
      rw [hphase]
      exact .settled hreactions hsettlements howner hread
  · exact hconsistent

theorem Consistent.of_top
    {rest : List (Frame ε)} (hstack : state.stack = frame :: rest) (hsolid : frame.isSolid = true) :
    rest.filter Frame.isSolid = [] ∧ state.phase = frame.inside ∧
      Ledger state frame.outside frame.closingStage faults := by
  have hsolids : state.solids = frame :: rest.filter Frame.isSolid := by
    rw [State.solids, hstack, List.filter_cons_of_pos hsolid]
  cases hconsistent with
  | resting hnone =>
    rw [hsolids] at hnone
    cases hnone
  | within top htop hphase hledger =>
    rw [hsolids] at htop
    obtain ⟨rfl, hrest⟩ := List.cons.inj htop
    exact ⟨hrest, hphase, hledger⟩

theorem finish_consistent (fault : Option ε) :
    Consistent (finish fault state) (faults ++ (closeFault state (.ends fault)).toList) := by
  cases hstack : state.stack with
  | nil => simpa [finish, closeFault, hstack] using hconsistent
  | cons frame rest =>
    have hpass : frame.isSolid = false → Consistent { state with stack := rest } faults := by
      intro hsolid
      have hsolids : State.solids { state with stack := rest } = state.solids := by
        rw [State.solids, State.solids, hstack, List.filter_cons_of_neg (by simp [hsolid])]
      cases hconsistent with
      | resting hnone hledger =>
        exact .resting (hsolids.trans hnone)
          (hledger.transfer rfl rfl rfl (fun _ h ↦ h) fun _ h ↦ h)
      | within top htop hphase hledger =>
        exact .within top (hsolids.trans htop) hphase
          (hledger.transfer rfl rfl rfl (fun _ h ↦ h) fun _ h ↦ h)
    have hrestore : frame.isSolid = true → frame.closingStage = none →
        Consistent { state with phase := frame.outside, stack := rest } faults := by
      intro hsolid hstage
      obtain ⟨hrest, -, hledger⟩ := hconsistent.of_top hstack hsolid
      rw [hstage] at hledger
      exact .resting hrest (hledger.transfer rfl rfl rfl (fun _ h ↦ h) fun _ h ↦ h)
    cases frame with
    | delegation entry previous =>
      simpa [finish, closeFault, hstack, Frame.outside] using hrestore rfl rfl
    | callback previous =>
      simpa [finish, closeFault, hstack, Frame.outside] using hrestore rfl rfl
    | passedCallback => simpa [finish, closeFault, hstack] using hpass rfl
    | ownerEntry => simpa [finish, closeFault, hstack] using hpass rfl
    | closeOwner =>
      obtain ⟨hrest, hphase, hledger⟩ := hconsistent.of_top hstack rfl
      cases hledger with
      | invokingOwner hreactions hsettlements =>
        simp only [finish, closeFault, hstack]
        refine .within (.closeRead fault) ?_ hphase (.invokingRead hreactions hsettlements)
        rw [State.solids, List.filter_cons_of_pos rfl, hrest]
    | closeRead ownerFault =>
      obtain ⟨hrest, hphase, hledger⟩ := hconsistent.of_top hstack rfl
      cases hledger with
      | invokingRead hreactions hsettlements =>
        simp only [finish, closeFault, hstack]
        exact .resting hrest (.waiting (by simp [hreactions]) hsettlements)

theorem callback_consistent : Consistent (callback state) faults := by
  unfold callback
  split
  · rename_i hactive
    cases hconsistent with
    | resting hsolids hledger =>
      rcases hledger.phase_cases with hphase | hphase | hphase <;>
        simp [hphase, delegationActive] at hactive
    | within frame hsolids hphase hledger =>
      exact .within frame hsolids hphase
        (hledger.transfer rfl rfl rfl (fun _ h ↦ h) fun _ h ↦ h)
  · rename_i hactive
    cases hconsistent with
    | resting hsolids hledger =>
      refine .within (.callback state.phase) (by rw [State.solids_cons rfl rfl, hsolids]) rfl ?_
      exact hledger.transfer rfl rfl rfl (fun _ h ↦ h) fun _ h ↦ h
    | within frame hsolids hphase hledger =>
      rw [hphase] at hactive
      exact absurd frame.inside_active hactive

theorem ownerEnters_consistent : Consistent (ownerEnters state) faults := by
  unfold ownerEnters
  split
  · exact hconsistent
  · cases hconsistent with
    | resting hsolids hledger =>
      exact .resting hsolids (hledger.transfer rfl rfl rfl (fun _ h ↦ h) fun _ h ↦ h)
    | within frame hsolids hphase hledger =>
      exact .within frame hsolids hphase
        (hledger.transfer rfl rfl rfl (fun _ h ↦ h) fun _ h ↦ h)

theorem settleReaction_consistent : Consistent (settleReaction state) faults := by
  unfold settleReaction
  split
  · rename_i owner read ownerFault readFault rest hstack howner hread hreactions
    have hsolids : state.solids = [] := by rw [State.solids, hstack]; rfl
    cases hconsistent with
    | resting _ hledger =>
      obtain ⟨phase, hphase⟩ : ∃ phase, state.phase = phase := ⟨_, rfl⟩
      rw [hphase] at hledger
      cases hledger with
      | idle _ hnone => rw [hnone] at hreactions; cases hreactions
      | waiting hone hsettlements =>
        rw [hone] at hreactions
        cases hreactions
        exact .resting hsolids (.settled rfl (by rw [hsettlements]; rfl) howner hread)
      | settled hnone => rw [hnone] at hreactions; cases hreactions
    | within frame hframe =>
      rw [hsolids] at hframe
      cases hframe
  · exact hconsistent

theorem Consistent.components
    (hphase : other.phase = state.phase) (hstack : other.stack = state.stack)
    (hobserving : other.observing = state.observing)
    (hreactions : other.reactions = state.reactions)
    (hsettlements : other.settlements = state.settlements)
    (howner : ∀ owner, state.owner = some owner → other.owner = some owner)
    (hread : ∀ read, state.read = some read → other.read = some read) :
    Consistent other faults := by
  have hsolids : other.solids = state.solids := by rw [State.solids, hstack]; rfl
  cases hconsistent with
  | resting hnone hledger =>
    refine .resting (hsolids.trans hnone) ?_
    rw [hphase]
    exact hledger.transfer hobserving hreactions hsettlements howner hread
  | within frame hframe hinside hledger =>
    exact .within frame (hsolids.trans hframe) (hphase.trans hinside)
      (hledger.transfer hobserving hreactions hsettlements howner hread)

theorem next_consistent (event : Event ε) :
    Consistent (next state event) (faults ++ (closeFault state event).toList) := by
  have hquiet : closeFault state event = none → Consistent (next state event) faults →
      Consistent (next state event) (faults ++ (closeFault state event).toList) := by
    intro hnone hnext
    simpa [hnone] using hnext
  cases event with
  | ends fault => exact finish_consistent hconsistent fault
  | call entry => exact hquiet rfl (enter_consistent hconsistent entry)
  | close =>
    refine hquiet rfl ?_
    rw [next]
    cases hclose : close state with
    | error decision => exact hconsistent
    | ok closed => exact close_consistent hconsistent hclose
  | callback => exact hquiet rfl (callback_consistent hconsistent)
  | ownerEnters => exact hquiet rfl (ownerEnters_consistent hconsistent)
  | ownerReaction => exact hquiet rfl (ownerReaction_consistent hconsistent)
  | settleReaction => exact hquiet rfl (settleReaction_consistent hconsistent)
  | ownerStops =>
    exact hquiet rfl (hconsistent.components rfl rfl rfl rfl rfl (fun _ h ↦ h) fun _ h ↦ h)
  | ownerSettles completion =>
    exact hquiet rfl (hconsistent.components rfl rfl rfl rfl rfl
      (fun owner h ↦ by simp [next, h]) fun _ h ↦ h)
  | readSettles completion =>
    exact hquiet rfl (hconsistent.components rfl rfl rfl rfl rfl (fun _ h ↦ h)
      fun read h ↦ by simp [next, h])

theorem run_consistent (events : List (Event ε)) :
    Consistent (run state events) (faults ++ closeFaults state events) := by
  induction events generalizing state faults with
  | nil => simpa [run, closeFaults] using hconsistent
  | cons event events ih =>
    have hrest := ih (next_consistent hconsistent event)
    rwa [List.append_assoc] at hrest

end

theorem reachable (events : List (Event ε)) :
    Consistent (run .start events) (closeFaults .start events) :=
  run_consistent consistent_start events

end Steps

section Progress

def Frame.isClose : Frame ε → Bool
  | .closeOwner | .closeRead _ => true
  | _ => false

/-- Every closing that began and where it is: invoking, waiting or settled. -/
def State.progress (state : State ε) : ℕ :=
  state.stack.countP Frame.isClose + state.reactions.length + state.settlements.length

theorem progress_le_close {state closed : State ε} (hclose : close state = .ok closed) :
    state.progress ≤ closed.progress := by
  unfold close at hclose
  split at hclose
  · cases hclose
  · split at hclose <;> cases hclose
    · exact Nat.le_refl _
    · simp [State.progress, Frame.isClose, List.countP_cons]

theorem progress_le_finish (state : State ε) (fault : Option ε) :
    state.progress ≤ (finish fault state).progress := by
  unfold finish
  split <;> rename_i hstack <;>
    simp [State.progress, hstack, Frame.isClose, List.countP_cons]
  omega

theorem progress_le_next (state : State ε) (event : Event ε) :
    state.progress ≤ (next state event).progress := by
  cases event with
  | call entry =>
    rw [next, enter]
    split
    · exact Nat.le_refl _
    · simp [State.progress, Frame.isClose]
  | close =>
    rw [next]
    cases hclose : close state with
    | error decision => exact Nat.le_refl _
    | ok closed => exact progress_le_close hclose
  | ends fault => exact progress_le_finish state fault
  | callback =>
    rw [next, callback]
    split <;> simp [State.progress, Frame.isClose]
  | ownerEnters =>
    rw [next, ownerEnters]
    split <;> simp [State.progress, Frame.isClose]
  | ownerReaction =>
    rw [next, ownerReaction]
    split
    · rw [ownerFinished]
      split
      · exact Nat.le_refl _
      · split
        · rename_i hclose
          have hprogress := progress_le_close hclose
          simpa [State.progress] using hprogress
        · simp [State.progress, failSettlement]
    · exact Nat.le_refl _
  | settleReaction =>
    rw [next, settleReaction]
    split
    · rename_i hreactions
      simp [State.progress, hreactions]
      omega
    · exact Nat.le_refl _
  | ownerStops | ownerSettles | readSettles => exact Nat.le_refl _

theorem progress_le_run (state : State ε) (events : List (Event ε)) :
    state.progress ≤ (run state events).progress := by
  induction events generalizing state with
  | nil => exact Nat.le_refl _
  | cons event events ih =>
    exact Nat.le_trans (progress_le_next state event) (ih (next state event))

variable {state : State ε} {faults : List (Option ε)}

theorem countP_isClose_of_solids (hsolids : state.solids = []) :
    state.stack.countP Frame.isClose = 0 := by
  rw [List.countP_eq_zero]
  intro frame hmem hclose
  have hsolid : frame ∈ state.solids := by
    refine List.mem_filter.mpr ⟨hmem, ?_⟩
    cases frame <;> simp_all [Frame.isClose, Frame.isSolid]
  rw [hsolids] at hsolid
  cases hsolid

theorem Consistent.gate_of_progress (hconsistent : Consistent state faults)
    (hprogress : 0 < state.progress) : gate true state ≠ none := by
  intro hgate
  obtain ⟨hsolids, hledger, hadmission⟩ := hconsistent.of_gate hgate
  rw [(hadmission rfl).1] at hledger
  cases hledger with
  | idle _ hreactions hsettlements =>
    rw [State.progress, countP_isClose_of_solids hsolids, hreactions, hsettlements] at hprogress
    cases hprogress

theorem Consistent.progress_of_closing (hconsistent : Consistent state faults)
    (hclosing : state.phase = .closing) : 0 < state.progress := by
  cases hconsistent with
  | resting _ hledger =>
    rw [hclosing] at hledger
    cases hledger
  | within frame hsolids hinside hledger =>
    rw [hclosing] at hinside
    have hmem : frame ∈ state.stack :=
      (List.mem_filter.mp (by rw [State.solids] at hsolids; rw [hsolids]; simp)).1
    have hclose : frame.isClose = true := by
      cases frame with
      | delegation entry previous =>
        cases entry <;> simp [Frame.inside, Entry.phase] at hinside
      | closeOwner | closeRead => rfl
      | _ => simp [Frame.inside] at hinside
    have hcount : 0 < state.stack.countP Frame.isClose :=
      List.countP_pos_iff.mpr ⟨frame, hmem, hclose⟩
    rw [State.progress]
    omega

theorem next_accepting (state : State ε) (event : Event ε)
    (haccepting : (next state event).accepting = true) : state.accepting = true := by
  have hclose : ∀ {state closed : State ε}, close state = .ok closed →
      closed.accepting = state.accepting := by
    intro state closed hclose
    unfold close at hclose
    split at hclose
    · cases hclose
    · split at hclose <;> cases hclose <;> rfl
  cases event with
  | call entry =>
    rw [next, enter] at haccepting
    split at haccepting <;> exact haccepting
  | close =>
    rw [next] at haccepting
    cases hclosed : close state with
    | error decision => simpa [hclosed, Except.toOption] using haccepting
    | ok closed =>
      rw [← hclose hclosed]
      simpa [hclosed, Except.toOption] using haccepting
  | ends fault =>
    rw [next, finish] at haccepting
    split at haccepting <;> exact haccepting
  | callback =>
    rw [next, callback] at haccepting
    split at haccepting <;> exact haccepting
  | ownerEnters =>
    rw [next, ownerEnters] at haccepting
    split at haccepting <;> exact haccepting
  | ownerReaction =>
    rw [next, ownerReaction] at haccepting
    split at haccepting
    · rw [ownerFinished] at haccepting
      split at haccepting
      · exact haccepting
      · split at haccepting
        · rename_i hclosed
          rw [hclose hclosed] at haccepting
          exact haccepting
        · exact haccepting
    · exact haccepting
  | settleReaction =>
    rw [next, settleReaction] at haccepting
    split at haccepting <;> exact haccepting
  | ownerStops => cases haccepting
  | ownerSettles | readSettles => exact haccepting

theorem run_accepting {events : List (Event ε)} {state : State ε}
    (haccepting : (run state events).accepting = true) :
    state.accepting = true ∧ Event.ownerStops ∉ events := by
  induction events generalizing state with
  | nil => exact ⟨haccepting, List.not_mem_nil⟩
  | cons event events ih =>
    obtain ⟨hnext, hrest⟩ := ih haccepting
    refine ⟨next_accepting state event hnext, ?_⟩
    rintro (_ | ⟨_, hmem⟩)
    · cases hnext
    · exact hrest hmem

end Progress

section Lifecycle

variable {state : State ε} {faults : List (Option ε)}

theorem Consistent.one_delegation (hconsistent : Consistent state faults) :
    (state.stack.filter Frame.isDelegation).length ≤ 1 := by
  have hsolids : state.solids.length ≤ 1 := by
    cases hconsistent with
    | resting hsolids => simp [hsolids]
    | within frame hsolids => simp [hsolids]
  rw [← List.countP_eq_length_filter]
  rw [State.solids, ← List.countP_eq_length_filter] at hsolids
  exact Nat.le_trans (List.countP_mono_left fun _ _ ↦ Frame.isSolid_of_isDelegation) hsolids

theorem Consistent.phase_of_stack (hconsistent : Consistent state faults)
    {others : List (Option ε)} (hother : Consistent other others)
    (hstack : other.stack = state.stack) (hsolids : state.solids ≠ []) :
    other.phase = state.phase := by
  have hsame : other.solids = state.solids := by rw [State.solids, hstack]; rfl
  cases hconsistent with
  | resting hnone => exact absurd hnone hsolids
  | within frame hframe hphase =>
    cases hother with
    | resting hnone => exact absurd (hsame.symm.trans hnone) hsolids
    | within second hsecond hinside =>
      have hequal : [second] = [frame] := by rw [← hsecond, hsame, hframe]
      obtain rfl : second = frame := by simpa using hequal
      rw [hphase, hinside]

theorem enter_restores (state : State ε) (entry : Entry) (hgate : gate true state = none)
    {ended : State ε} (hended : ended.stack = (next state (.call entry)).stack)
    (fault : Option ε) :
    (next ended (.ends fault)).phase = state.phase ∧
      (next ended (.ends fault)).stack = state.stack := by
  have hstack : ended.stack = .delegation entry state.phase :: state.stack := by
    rw [hended, next, enter, hgate]
  simp [next, finish, hstack]

theorem callback_restores (hconsistent : Consistent state faults) {ended : State ε}
    {others : List (Option ε)} (hother : Consistent ended others)
    (hended : ended.stack = (next state .callback).stack) (fault : Option ε) :
    (next ended (.ends fault)).phase = state.phase ∧
      (next ended (.ends fault)).stack = state.stack := by
  rw [next, callback] at hended
  split at hended
  · rename_i hactive
    have hsolids : state.solids ≠ [] := by
      cases hconsistent with
      | resting _ hledger =>
        rcases hledger.phase_cases with hphase | hphase | hphase <;>
          simp [hphase, delegationActive] at hactive
      | within frame hframe => simp [hframe]
    have hinner : Consistent { ended with stack := state.stack } others := by
      have hfinish := finish_consistent hother none
      simpa [finish, closeFault, hended] using hfinish
    have hphase := hconsistent.phase_of_stack hinner rfl hsolids
    simpa [next, finish, hended] using hphase
  · simp [next, finish, hended]

theorem settlement_rejects (ownerFault readFault : Option ε) (owner read : Completion ε) :
    (settlement ⟨ownerFault, owner⟩ ⟨readFault, read⟩).rejects = true ↔
      ownerFault.isSome = true ∨ readFault.isSome = true ∨ owner ≠ .fulfilled ∨
        read ≠ .fulfilled := by
  cases ownerFault <;> cases readFault <;> cases owner <;> cases read <;>
    simp [settlement, Evidence.firstError, Settlement.rejects]

theorem Consistent.settlements (hconsistent : Consistent state faults) :
    state.settlements = [] ∨ ∃ ownerFault readFault owner read,
      faults = [ownerFault, readFault] ∧ state.owner = some owner ∧ state.read = some read ∧
      state.settlements = [settlement ⟨ownerFault, owner⟩ ⟨readFault, read⟩] := by
  have hledger : ∀ {phase : Phase} {stage : Option (Frame ε)},
      Ledger state phase stage faults → state.settlements = [] ∨ ∃ ownerFault readFault owner read,
          faults = [ownerFault, readFault] ∧ state.owner = some owner ∧
          state.read = some read ∧
          state.settlements = [settlement ⟨ownerFault, owner⟩ ⟨readFault, read⟩] := by
    intro phase stage hledger
    cases hledger with
    | settled _ hsettlements howner hread =>
      exact .inr ⟨_, _, _, _, rfl, howner, hread, hsettlements⟩
    | idle _ _ hsettlements | invokingOwner _ hsettlements | invokingRead _ hsettlements
    | waiting _ hsettlements => exact .inl hsettlements
  cases hconsistent with
  | resting _ hstage => exact hledger hstage
  | within _ _ _ hstage => exact hledger hstage

theorem Consistent.settles (hconsistent : Consistent state faults) (hstack : state.stack = [])
    (hownerReaction : next state .ownerReaction = state)
    (hsettleReaction : next state .settleReaction = state) (howner : state.owner.isSome = true)
    (hread : state.read.isSome = true) : state.settlements.length = 1 := by
  have hsolids : state.solids = [] := by rw [State.solids, hstack]; rfl
  cases hconsistent with
  | within frame hframe =>
    rw [hsolids] at hframe
    cases hframe
  | resting _ hledger =>
    obtain ⟨phase, hphase⟩ : ∃ phase, state.phase = phase := ⟨_, rfl⟩
    rw [hphase] at hledger
    cases hledger with
    | idle hobserving =>
      have hmoved : (next state .ownerReaction).phase = .closing := by
        rw [next, ownerReaction, if_pos ⟨hstack, howner, hobserving⟩]
        simp [ownerFinished, close, gate, State.ending, State.busy, delegationActive, hphase,
          hstack]
      rw [hownerReaction, hphase] at hmoved
      cases hmoved
    | waiting hreactions =>
      obtain ⟨owner, howner⟩ := Option.isSome_iff_exists.mp howner
      obtain ⟨read, hread⟩ := Option.isSome_iff_exists.mp hread
      have hmoved : (next state .settleReaction).reactions = [] := by
        simp [next, settleReaction, hstack, howner, hread, hreactions]
      rw [hsettleReaction, hreactions] at hmoved
      cases hmoved
    | settled _ hsettlements => simp [hsettlements]

theorem call_of_gate (entry : Entry) (hgate : gate true state ≠ none) :
    next state (.call entry) = state := by
  rw [next, enter]
  split
  · rfl
  · rename_i hnone
    exact absurd hnone hgate

theorem coordinator_lifecycle (events : List (Event ε)) :
    -- No delegation starts while another is active.
    ((run .start events).stack.filter Frame.isDelegation).length ≤ 1 ∧
    -- Nothing is admitted once closing began or the owner stopped accepting.
    ((∃ earlier later, events = earlier ++ later ∧ (run .start earlier).phase = .closing) ∨
        .ownerStops ∈ events →
      ∀ entry, gate true (run .start events) ≠ none ∧
        next (run .start events) (.call entry) = run .start events) ∧
    -- Every entry and every callback restores the phase, whether it returns or throws, and a
    -- closing whose invocations throw drains.
    (∀ entry active fault, gate true (run .start events) = none →
      (run (run .start events) (.call entry :: active)).stack =
        (next (run .start events) (.call entry)).stack →
      (next (run (run .start events) (.call entry :: active)) (.ends fault)).phase =
        (run .start events).phase) ∧
    (∀ active fault, (run (run .start events) (.callback :: active)).stack =
        (next (run .start events) .callback).stack →
      (next (run (run .start events) (.callback :: active)) (.ends fault)).phase =
        (run .start events).phase) ∧
    (∀ ownerFault rest fault, (run .start events).stack = .closeRead ownerFault :: rest →
      (next (run .start events) (.ends fault)).phase = .draining) ∧
    -- The joint completion settles once, from both completions and both invocations.
    (∀ settled ∈ (run .start events).settlements, (run .start events).settlements = [settled] ∧
      ∃ ownerFault readFault owner read, closeFaults .start events = [ownerFault, readFault] ∧
        (run .start events).owner = some owner ∧ (run .start events).read = some read ∧
        (settled.rejects = true ↔ ownerFault.isSome = true ∨ readFault.isSome = true ∨
          owner ≠ .fulfilled ∨ read ≠ .fulfilled)) ∧
    ((run .start events).stack = [] →
      next (run .start events) .ownerReaction = run .start events →
      next (run .start events) .settleReaction = run .start events →
      (run .start events).owner.isSome = true → (run .start events).read.isSome = true →
      (run .start events).settlements.length = 1) := by
  have hconsistent : Consistent (run (.start : State ε) events) _ := reachable events
  refine ⟨hconsistent.one_delegation, fun hended entry ↦ ?_, fun entry active fault hgate hstack ↦
    (enter_restores _ entry hgate hstack fault).1, fun active fault hstack ↦ ?_,
    fun ownerFault rest fault hstack ↦ by simp [next, finish, hstack], fun settled hmem ↦ ?_,
    hconsistent.settles⟩
  · have hgate : gate true (run .start events) ≠ none := by
      rcases hended with ⟨earlier, later, rfl, hclosing⟩ | hstops
      · have hprogress := (reachable earlier).progress_of_closing hclosing
        rw [run, List.foldl_append] at hconsistent ⊢
        exact hconsistent.gate_of_progress 
          (Nat.lt_of_lt_of_le hprogress (progress_le_run _ later))
      · intro hgate
        have haccepting := (hconsistent.of_gate hgate).2.2 rfl
        exact (run_accepting haccepting.2).2 hstops
    exact ⟨hgate, call_of_gate entry hgate⟩
  · have hinner := run_consistent hconsistent (.callback :: active)
    exact (callback_restores hconsistent hinner hstack fault).1
  · rcases hconsistent.settlements with hnone | ⟨ownerFault, readFault, owner, read, hfaults,
      howner, hread, hone⟩
    · rw [hnone] at hmem
      cases hmem
    · rw [hone] at hmem ⊢
      obtain rfl := List.mem_singleton.mp hmem
      exact ⟨rfl, ownerFault, readFault, owner, read, hfaults, howner, hread,
        settlement_rejects ownerFault readFault owner read⟩

end Lifecycle

end Bdp.Coordination
