import Bdp.Library.Programs
import Bdp.Evaluator.Creation

/-!
# The commands of an evaluation

The evaluators over a view that they read and write: stage by stage in the order of the source, with
every write issued where the source issues it. The view may refuse a write with an error of its own,
which is an internal error of the evaluation.
-/

namespace Bdp.Evaluator

open Recovery (ResourceKind)

inductive ViewCommand where
  | putResource (row : StoredResource)
  | deleteResource (id : String)
  | putAlias (path target : String)
  | deleteAlias (path : String)
  deriving DecidableEq

/-- The view of one member: what it reads of a state, and what a command makes of the state. -/
structure MemberView (σ : Type) where
  tx : σ → ResourceTransaction
  perform : ViewCommand → σ → Except String σ

variable {σ : Type} (options : ResourceEvaluationOptions) (view : MemberView σ)

abbrev Evaluation (σ : Type) := Program σ ViewCommand Stop

/-- Issue one write; what the view raises is no failure of the evaluator. -/
def MemberView.issue (command : ViewCommand) : Evaluation σ Unit :=
  Program.issue (fun command state ↦ (view.perform command state).mapError Stop.fault) command

section Resources

/-- The stages of a Resource mutation before its first write. -/
def readMutation (mutation : ResourceMutation) : Evaluation σ ResourceEvaluation := do
  let prepared ← Program.reading fun state ↦ prepare options (view.tx state) mutation
  let noOp := isNoOp mutation prepared
  let versions ← Program.reading fun state ↦
    makeVersions options (view.tx state) mutation prepared noOp
  Program.reading fun _ ↦ checkPolicy options mutation prepared versions
  Program.reading fun state ↦ checkConditions options (view.tx state) mutation prepared
  Program.reading fun _ ↦ versions.records.forM (checkSizes options)
  let outcome ← Program.reading fun _ ↦ mutationOutcome mutation prepared versions
  let writes ← Program.reading fun _ ↦ writtenRows options noOp versions
  pure { outcome, writes
         resolutions := prepared.subject.resolutions ++
           endpointResolutions mutation prepared.endpoints
         deleted := if mutation.deleting then some prepared.subject.id else none }

/-- Issue the writes of a mutation, then the deletion of its subject. -/
def writeMutation (evaluation : ResourceEvaluation) : Evaluation σ Unit := do
  evaluation.writes.forM fun row ↦ view.issue (.putResource row)
  evaluation.deleted.toList.forM fun id ↦ view.issue (.deleteResource id)

def evaluateIn (mutation : ResourceMutation) : Evaluation σ ResourceEvaluation := do
  let evaluation ← readMutation options view mutation
  writeMutation view evaluation
  pure evaluation

/-- What the caller sees of an evaluation, with the state and the commands it leaves. -/
def settled {α : Type} (result : Except Stop α × σ × List ViewCommand) :
    Except String (Except ReadUpdateProblem α) × σ × List ViewCommand :=
  (match result.1 with
    | .ok evaluation => .ok (.ok evaluation)
    | .error (.failure problem) => .ok (.error problem)
    | .error (.fault message) => .error message, result.2)

def evaluateResourceMutationIn (mutation : ResourceMutation) (state : σ) :
    Except String (Except ReadUpdateProblem ResourceEvaluation) × σ × List ViewCommand :=
  settled ((evaluateIn options view mutation).runFrom (state, []))

end Resources

section Aliases

variable (canWriteBead : BeadRecord → Bool) (resultParses : AliasOutcome → Bool)

def writeAlias : AliasChange → Evaluation σ Unit
  | .unchanged => pure ()
  | .put path target => view.issue (.putAlias path target)
  | .delete path => view.issue (.deleteAlias path)

/-- An alias mutation; its result is parsed again after the write. -/
def evaluateAliasIn (mutation : AliasMutation) : Evaluation σ AliasEvaluation := do
  let evaluation ← Program.reading fun state ↦
    evaluateAlias options canWriteBead (view.tx state) mutation
  writeAlias view evaluation.change
  Program.reading fun _ ↦ check (resultParses evaluation.outcome = true)
    (.fault "invalid alias result")
  pure evaluation

def evaluateAliasMutationIn (mutation : AliasMutation) (state : σ) :
    Except String (Except ReadUpdateProblem AliasEvaluation) × σ × List ViewCommand :=
  settled ((evaluateAliasIn options view canWriteBead resultParses mutation).runFrom (state, []))

end Aliases

section Failures

/-- A failure that the evaluators declare, as opposed to an internal error. -/
def Stop.IsFailure (stop : Stop) : Prop := ∃ problem, stop = .failure problem

variable {options} {view}

theorem not_isFailure_fault (message : String) : ¬ (Stop.fault message).IsFailure := by
  rintro ⟨problem, h⟩
  cases h

theorem never_issue (command : ViewCommand) : (view.issue command).Never Stop.IsFailure := by
  refine Program.never_issue fun state error herror ↦ ?_
  cases hperform : view.perform command state with
  | ok next =>
    rw [hperform] at herror
    cases herror
  | error message =>
    rw [hperform] at herror
    obtain rfl := Except.error.inj herror
    exact not_isFailure_fault message

theorem never_writeMutation (evaluation : ResourceEvaluation) :
    (writeMutation view evaluation).Never Stop.IsFailure :=
  (Program.never_forM fun _ ↦ never_issue _).bind fun _ ↦ Program.never_forM fun _ ↦ never_issue _

theorem never_writeAlias (change : AliasChange) :
    (writeAlias view change).Never Stop.IsFailure := by
  cases change with
  | unchanged => exact Program.never_pure ()
  | put path target => exact never_issue _
  | delete path => exact never_issue _

variable (mutation : ResourceMutation)

theorem readMutation_eq : readMutation options view mutation =
      Program.reading fun state ↦ evaluate options (view.tx state) mutation := by
  unfold readMutation evaluate
  simp only [Program.pure_eq_reading, Program.reading_bind_reading]

theorem clean_evaluateIn : (evaluateIn options view mutation).Clean Stop.IsFailure := by
  unfold evaluateIn
  rw [readMutation_eq]
  refine (Program.quiet_reading _).clean_bind fun evaluation ↦ Program.Never.clean ?_
  exact (never_writeMutation evaluation).bind fun _ ↦ Program.never_pure _

theorem clean_evaluateAliasIn (canWriteBead : BeadRecord → Bool)
    (resultParses : AliasOutcome → Bool) (mutation : AliasMutation) :
    (evaluateAliasIn options view canWriteBead resultParses mutation).Clean Stop.IsFailure := by
  refine (Program.quiet_reading _).clean_bind fun evaluation ↦ Program.Never.clean ?_
  refine (never_writeAlias evaluation.change).bind fun _ ↦ Program.Never.bind ?_ fun _ ↦
    Program.never_pure _
  refine Program.never_reading fun state error herror ↦ ?_
  unfold check at herror
  split at herror
  · cases herror
  · obtain rfl := Except.error.inj herror
    exact not_isFailure_fault _

theorem settled_failure {α : Type} {result : Except Stop α × σ × List ViewCommand}
    {problem : ReadUpdateProblem} (h : (settled result).1 = .ok (.error problem)) :
    result.1 = .error (.failure problem) := by
  unfold settled at h
  obtain ⟨outcome, rest⟩ := result
  cases outcome with
  | ok evaluation => cases h
  | error stop =>
    cases stop with
    | failure other =>
      obtain rfl := Except.error.inj (Except.ok.inj h)
      rfl
    | fault message => cases h

/-- A mutation that fails has issued no command, and the state is what it was. -/
theorem failed_mutation_writes_nothing {σ : Type} (options : ResourceEvaluationOptions)
    (view : MemberView σ) (canWriteBead : BeadRecord → Bool) (resultParses : AliasOutcome → Bool)
    (state : σ) (problem : ReadUpdateProblem) :
    (∀ mutation,
      (evaluateResourceMutationIn options view mutation state).1 = .ok (.error problem) →
        (evaluateResourceMutationIn options view mutation state).2 = (state, [])) ∧
      ∀ mutation,
        (evaluateAliasMutationIn options view canWriteBead resultParses mutation state).1 =
            .ok (.error problem) →
          (evaluateAliasMutationIn options view canWriteBead resultParses mutation state).2 =
            (state, []) := by
  constructor
  · intro mutation h
    exact clean_evaluateIn mutation (state, []) _ (settled_failure h) ⟨problem, rfl⟩
  · intro mutation h
    exact clean_evaluateAliasIn canWriteBead resultParses mutation (state, []) _
      (settled_failure h) ⟨problem, rfl⟩

end Failures

section Graphs

variable (config : GraphConfiguration) (context : MemberContext)

/-- The view of a member over the tables of a store. -/
def GraphConfiguration.memberView : MemberView Graph :=
  { tx := fun graph ↦ graph.view config context
    perform := fun command graph ↦
      match command with
      | .putResource row => graph.putResource config row
      | .deleteResource id => graph.deleteResource config id
      | .putAlias path target => graph.putAlias config path target
      | .deleteAlias path => .ok { graph with aliases := graph.aliases.erase path } }

variable {config} {context} {graph after : Graph}

/-- Two members that the graph of one note refuses. -/
theorem failed_mutation_sample :
    (evaluateResourceMutationIn (sampleContext.options (sampleConfiguration .recovery))
        ((sampleConfiguration .recovery).memberView sampleContext) (.delete .bead "b" none)
        noteGraph).2 = (noteGraph, []) ∧
      (evaluateAliasMutationIn (sampleContext.options (sampleConfiguration .recovery))
        ((sampleConfiguration .recovery).memberView sampleContext) (fun _ ↦ true) (fun _ ↦ true)
        (.deleteAlias "alias/x") noteGraph).2 = (noteGraph, []) := by
  have hfailed := failed_mutation_writes_nothing
    (sampleContext.options (sampleConfiguration .recovery))
    ((sampleConfiguration .recovery).memberView sampleContext) (fun _ ↦ true) (fun _ ↦ true)
    noteGraph FailureCode.resourceNotFound.problem
  exact ⟨hfailed.1 (.delete .bead "b" none) rfl, hfailed.2 (.deleteAlias "alias/x") rfl⟩

end Graphs

end Bdp.Evaluator
