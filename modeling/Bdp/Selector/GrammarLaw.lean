import Bdp.Selector.Grammar

/-!
# Parsing below an open parenthesis

Tokens that close only the parentheses which they opened move the parser below a further open
parenthesis as they move it by themselves. A text in parentheses, joined with a unit of its own, is
therefore parsed to the conjunction of the two expressions.
-/

namespace Bdp.Selector

open Option (bind_eq_some_iff)

variable {state : ParserState} {tokens : List Token}

section Runs

def run (state : ParserState) (tokens : List Token) : Option ParserState :=
  tokens.foldlM step state

@[simp]
theorem run_nil (state : ParserState) : run state [] = some state := rfl

@[simp]
theorem run_cons (state : ParserState) (token : Token) (tokens : List Token) :
    run state (token :: tokens) = (step state token).bind (run · tokens) := rfl

theorem run_append (state : ParserState) (first second : List Token) :
    run state (first ++ second) = (run state first).bind (run · second) := by
  simp [run, List.foldlM_append]

theorem step_closeBracket (state : ParserState) : step state .closeBracket = none := by
  unfold step
  split <;> rfl

theorem parseExpression_closeBracket (state : ParserState) (tokens : List Token) :
    parseExpression state (tokens ++ [.closeBracket]) = (run state tokens).bind close := by
  induction tokens generalizing state with
  | nil => simp [parseExpression]
  | cons token tokens ih =>
    by_cases hbracket : token = .closeBracket
    · subst hbracket
      cases hclose : close state <;> simp [parseExpression, step_closeBracket, hclose, failure]
    · rw [List.cons_append, parseExpression]
      · simp [ih, Option.bind_assoc]
      · exact hbracket

theorem parseExpression_some {node : BooleanNode}
    (hparse : parseExpression state tokens = some node) :
    ∃ inner, tokens = inner ++ [.closeBracket] := by
  induction tokens generalizing state with
  | nil => simp [parseExpression] at hparse
  | cons token tokens ih =>
    by_cases hbracket : token = .closeBracket
    · subst hbracket
      have htrailing : tokens = [] := by
        by_contra htrailing
        cases hclose : close state <;>
          simp [parseExpression, htrailing, hclose, failure] at hparse
      exact ⟨[], by simp [htrailing]⟩
    · rw [parseExpression] at hparse
      · obtain ⟨next, hstep, hparse⟩ := bind_eq_some_iff.mp hparse
        obtain ⟨inner, rfl⟩ := ih hparse
        exact ⟨token :: inner, rfl⟩
      · exact hbracket

end Runs

variable {operators : List OperatorEntry} {next : ParserState}
variable {token : Token}

section Groups

def openGroups (operators : List OperatorEntry) : ℕ := operators.countP OperatorEntry.isOpenGroup

@[simp]
theorem openGroups_nil : openGroups [] = 0 := rfl

@[simp]
theorem openGroups_operator (operator : Operator) (operators : List OperatorEntry) :
    openGroups (.operator operator :: operators) = openGroups operators := by
  simp [openGroups, OperatorEntry.isOpenGroup]

@[simp]
theorem openGroups_openGroup (count : ℕ) (operators : List OperatorEntry) :
    openGroups (.openGroup count :: operators) = openGroups operators + 1 :=
  List.countP_cons_of_pos rfl

theorem any_isOpenGroup (operators : List OperatorEntry) :
    operators.any OperatorEntry.isOpenGroup = decide (0 < openGroups operators) := by
  induction operators with
  | nil => rfl
  | cons entry operators ih => cases entry <;> simp [ih, OperatorEntry.isOpenGroup]

theorem openGroups_append (first second : List OperatorEntry) :
    openGroups (first ++ second) = openGroups first + openGroups second := by
  simp [openGroups]

variable {rest : List OperatorEntry} {values left : List AstNode}

theorem reduceForIncoming_openGroups {incoming : Operator}
    (hreduce : reduceForIncoming incoming operators values = some (rest, left)) :
    openGroups rest = openGroups operators := by
  induction operators generalizing values with
  | nil =>
    simp only [reduceForIncoming, Option.some.injEq, Prod.mk.injEq] at hreduce
    rw [← hreduce.1]
  | cons entry operators ih =>
    cases entry with
    | openGroup count =>
      simp only [reduceForIncoming, Option.some.injEq, Prod.mk.injEq] at hreduce
      rw [← hreduce.1]
    | operator top =>
      rw [reduceForIncoming] at hreduce
      split at hreduce
      · simp only [Option.some.injEq, Prod.mk.injEq] at hreduce
        rw [← hreduce.1]
      · obtain ⟨values, -, hreduce⟩ := bind_eq_some_iff.mp hreduce
        rw [ih hreduce, openGroups_operator]

theorem closeGroup_openGroups (hclose : closeGroup operators values = some (rest, left)) :
    openGroups operators = openGroups rest + 1 := by
  induction operators generalizing values with
  | nil => simp [closeGroup] at hclose
  | cons entry operators ih =>
    cases entry with
    | openGroup count =>
      cases values with
      | nil => simp [closeGroup] at hclose
      | cons operand values =>
        rw [closeGroup] at hclose
        split at hclose
        · obtain ⟨node, -, hclose⟩ := bind_eq_some_iff.mp hclose
          simp only [Option.pure_def, Option.some.injEq, Prod.mk.injEq] at hclose
          rw [openGroups_openGroup, hclose.1]
        · cases hclose
    | operator operator =>
      rw [closeGroup] at hclose
      obtain ⟨values, -, hclose⟩ := bind_eq_some_iff.mp hclose
      rw [openGroups_operator, ih hclose]

/-- How a token changes the number of open parentheses. -/
def depthAfter (depth : ℕ) : Token → ℕ
  | .openParen => depth + 1
  | .closeParen => depth - 1
  | _ => depth

/-- No token closes a parenthesis that was not opened before it. -/
def closesOwn : ℕ → List Token → Bool
  | _, [] => true
  | depth, token :: tokens =>
    decide (token = .closeParen → 0 < depth) && closesOwn (depthAfter depth token) tokens

theorem step_openGroups (hstep : step state token = some next) :
    (token = .closeParen → 0 < openGroups state.operators) ∧
      openGroups next.operators = depthAfter (openGroups state.operators) token := by
  unfold step at hstep
  split at hstep
  · cases token with
    | operator operator =>
      cases operator with
      | not =>
        rw [stepOperand] at hstep
        split at hstep
        · cases hstep
        · cases hstep
          simp [depthAfter]
      | _ => simp [stepOperand] at hstep
    | openParen | path | literal => cases hstep; simp [depthAfter]
    | _ => simp [stepOperand] at hstep
  · cases token with
    | operator operator =>
      cases operator with
      | not => simp [stepOperator] at hstep
      | _ =>
        obtain ⟨⟨rest, left⟩, hreduce, hnext⟩ := bind_eq_some_iff.mp hstep
        cases hnext
        simp [depthAfter, reduceForIncoming_openGroups hreduce]
    | closeParen =>
      obtain ⟨⟨rest, left⟩, hclose, hnext⟩ := bind_eq_some_iff.mp hstep
      cases hnext
      simp [depthAfter, closeGroup_openGroups hclose]
    | _ => simp [stepOperator] at hstep

theorem closesOwn_of_run (hrun : run state tokens = some next) :
    closesOwn (openGroups state.operators) tokens = true := by
  induction tokens generalizing state with
  | nil => rfl
  | cons token tokens ih =>
    obtain ⟨middle, hstep, hrun⟩ := bind_eq_some_iff.mp hrun
    obtain ⟨hclose, hdepth⟩ := step_openGroups hstep
    rw [closesOwn, ← hdepth, ih hrun, Bool.and_true]
    exact decide_eq_true hclose

end Groups

section Underneath

/-- A state of the parser below one further open parenthesis. -/
def ParserState.underGroup (state : ParserState) : ParserState :=
  { state with operators := state.operators ++ [.openGroup 0] }

theorem reduceForIncoming_append (incoming : Operator) (operators : List OperatorEntry)
    (values : List AstNode) :
    reduceForIncoming incoming (operators ++ [.openGroup 0]) values =
      (reduceForIncoming incoming operators values).map
        fun reduced ↦ (reduced.1 ++ [.openGroup 0], reduced.2) := by
  induction operators generalizing values with
  | nil => rfl
  | cons entry operators ih =>
    cases entry with
    | openGroup count => rfl
    | operator top =>
      rw [List.cons_append, reduceForIncoming, reduceForIncoming]
      split
      · rfl
      · cases reduceOperator top values with
        | none => rfl
        | some values => exact ih values

variable (values : List AstNode)

theorem closeGroup_append (hopen : 0 < openGroups operators) :
    closeGroup (operators ++ [.openGroup 0]) values = (closeGroup operators values).map
        fun closed ↦ (closed.1 ++ [.openGroup 0], closed.2) := by
  induction operators generalizing values with
  | nil => simp at hopen
  | cons entry operators ih =>
    cases entry with
    | openGroup count =>
      cases values with
      | nil => rfl
      | cons operand values =>
        rw [List.cons_append, closeGroup, closeGroup]
        split
        · cases requireBoolean operand <;> rfl
        · rfl
    | operator operator =>
      rw [List.cons_append, closeGroup, closeGroup]
      cases reduceOperator operator values with
      | none => rfl
      | some values => exact ih values (by simpa using hopen)

theorem closeGroup_outer (hclosed : openGroups operators = 0) :
    closeGroup (operators ++ [.openGroup 0]) values =
      ((reduceAll operators values).bind takeSingleBoolean).map
        fun node ↦ ([], [.boolean (.group node)]) := by
  induction operators generalizing values with
  | nil =>
    match values with
    | [] => rfl
    | [operand] =>
      simp only [List.nil_append, closeGroup, reduceAll, Option.bind_some, takeSingleBoolean]
      cases requireBoolean operand <;> rfl
    | operand :: second :: values => simp [closeGroup, reduceAll, takeSingleBoolean]
  | cons entry operators ih =>
    cases entry with
    | openGroup count => simp at hclosed
    | operator operator =>
      rw [List.cons_append, closeGroup, reduceAll]
      cases reduceOperator operator values with
      | none => rfl
      | some values => exact ih values (by simpa using hclosed)

theorem step_underGroup (hclose : token = .closeParen → 0 < openGroups state.operators) :
    step state.underGroup token = (step state token).map ParserState.underGroup := by
  obtain ⟨values, operators, expecting, saw⟩ := state
  cases expecting with
  | true =>
    cases token with
    | operator operator =>
      cases operator with
      | not => cases operators <;> simp [step, stepOperand, ParserState.underGroup, apply_ite]
      | _ => rfl
    | _ => rfl
  | false =>
    cases token with
    | operator operator =>
      cases operator with
      | not => rfl
      | _ =>
        simp only [step, stepOperator, ParserState.underGroup, Bool.false_eq_true, if_false,
          reduceForIncoming_append]
        cases reduceForIncoming _ operators values <;> rfl
    | closeParen =>
      simp only [step, stepOperator, ParserState.underGroup, Bool.false_eq_true, if_false,
        closeGroup_append values (hclose rfl)]
      cases closeGroup operators values <;> rfl
    | _ => rfl

theorem run_underGroup (hown : closesOwn (openGroups state.operators) tokens = true) :
    run state.underGroup tokens = (run state tokens).map ParserState.underGroup := by
  induction tokens generalizing state with
  | nil => rfl
  | cons token tokens ih =>
    rw [closesOwn, Bool.and_eq_true, decide_eq_true_eq] at hown
    rw [run_cons, run_cons, step_underGroup hown.1]
    cases hstep : step state token with
    | none => rfl
    | some next =>
      rw [← (step_openGroups hstep).2] at hown
      exact ih hown.2

end Underneath

section Units

/-- The tokens are one boolean operand wherever one is expected. -/
def Pushes (tokens : List Token) (node : BooleanNode) : Prop :=
  ∀ values operators saw, run ⟨values, operators, true, saw⟩ tokens =
    some ⟨.boolean node :: values, operators, false, true⟩

variable {second first : List Token} {right left : BooleanNode}

theorem Pushes.and (hfirst : Pushes first left) (hsecond : Pushes second right) :
    Pushes (.openParen :: (first ++ .operator .and :: (second ++ [.closeParen])))
      (.group (.and left right)) := by
  intro values operators saw
  simp [run_append, step, stepOperand, hfirst _, hsecond _, stepOperator, reduceForIncoming,
    closeGroup, reduceOperator, requireBoolean]

theorem Pushes.or (hfirst : Pushes first left) (hsecond : Pushes second right) :
    Pushes (.openParen :: (first ++ .operator .or :: (second ++ [.closeParen])))
      (.group (.or left right)) := by
  intro values operators saw
  simp [run_append, step, stepOperand, hfirst _, hsecond _, stepOperator, reduceForIncoming,
    closeGroup, reduceOperator, requireBoolean]

section

variable (hsaw : state.expectingOperand = false → state.sawExpression = true)
include hsaw

theorem step_sawExpression (hstep : step state token = some next) :
    next.expectingOperand = false → next.sawExpression = true := by
  intro hnext
  unfold step at hstep
  split at hstep
  · cases token with
    | operator operator =>
      cases operator with
      | not =>
        rw [stepOperand] at hstep
        split at hstep
        · cases hstep
        · cases hstep
          simp_all
      | _ => simp [stepOperand] at hstep
    | openParen => cases hstep; simp_all
    | path | literal => cases hstep; rfl
    | _ => simp [stepOperand] at hstep
  · rename_i hexpecting
    cases token with
    | operator operator =>
      cases operator with
      | not => simp [stepOperator] at hstep
      | _ =>
        obtain ⟨reduced, -, hstep⟩ := bind_eq_some_iff.mp hstep
        cases hstep
        cases hnext
    | closeParen =>
      obtain ⟨closed, -, hstep⟩ := bind_eq_some_iff.mp hstep
      cases hstep
      exact hsaw (by simpa using hexpecting)
    | _ => simp [stepOperator] at hstep

theorem run_sawExpression (hrun : run state tokens = some next) :
    next.expectingOperand = false → next.sawExpression = true := by
  induction tokens generalizing state with
  | nil => cases hrun; exact hsaw
  | cons token tokens ih =>
    obtain ⟨middle, hstep, hrun⟩ := bind_eq_some_iff.mp hrun
    exact ih (step_sawExpression hsaw hstep) hrun

end

end Units

section Conjunction

variable {node : BooleanNode} {unit : List Token}

theorem close_and_of_open (hunit : Pushes unit node) (values : List AstNode) (saw : Bool)
    (hopen : 0 < openGroups operators) :
    (run ⟨values, operators, false, saw⟩ (.operator .and :: unit)).bind close = none := by
  rw [run_cons, step, if_neg (by simp), stepOperator]
  on_goal 2 => nofun
  cases hreduce : reduceForIncoming .and operators values with
  | none => rfl
  | some reduced =>
    simp [hunit _, close, any_isOpenGroup, reduceForIncoming_openGroups hreduce, hopen]

theorem close_conjunct (hunit : Pushes unit node)
    (hsaw : state.expectingOperand = false → state.sawExpression = true) :
    (run state.underGroup (.closeParen :: .operator .and :: unit)).bind close =
      (close state).map fun user ↦ .and (.group user) node := by
  obtain ⟨values, operators, expecting, saw⟩ := state
  cases expecting with
  | true => simp [step, stepOperand, ParserState.underGroup, close]
  | false =>
    have hsaw : saw = true := hsaw rfl
    subst hsaw
    rw [run_cons, step, if_neg (by simp [ParserState.underGroup]), stepOperator]
    by_cases hopen : 0 < openGroups operators
    · have hclose : close ⟨values, operators, false, true⟩ = none := by
        simp [close, any_isOpenGroup, hopen]
      simp only [ParserState.underGroup, closeGroup_append values hopen, hclose]
      cases closeGroup operators values with
      | none => rfl
      | some closed =>
        exact close_and_of_open hunit _ _ (by simp [openGroups_append])
    · have hclosed : openGroups operators = 0 := by omega
      have hclose : close ⟨values, operators, false, true⟩ =
          (reduceAll operators values).bind takeSingleBoolean := by
        simp [close, any_isOpenGroup, hclosed]
      simp only [ParserState.underGroup, closeGroup_outer values hclosed, hclose]
      cases (reduceAll operators values).bind takeSingleBoolean with
      | none => rfl
      | some user =>
        simp [step, stepOperator, reduceForIncoming, hunit _, close, OperatorEntry.isOpenGroup,
          reduceAll, reduceOperator, requireBoolean, takeSingleBoolean]

theorem parseExpression_conjunct (hown : closesOwn 0 tokens = true) (hunit : Pushes unit node) :
    parseExpression .start
        (.openParen :: (tokens ++ .closeParen :: .operator .and :: unit) ++ [.closeBracket]) =
      (parseExpression .start (tokens ++ [.closeBracket])).map
        fun user ↦ .and (.group user) node := by
  rw [parseExpression_closeBracket, parseExpression_closeBracket, run_cons]
  change (run ParserState.start.underGroup _).bind close = _
  have hstart : closesOwn (openGroups ParserState.start.operators) tokens = true := hown
  rw [run_append, run_underGroup hstart]
  cases hrun : run ParserState.start tokens with
  | none => rfl
  | some state =>
    exact close_conjunct hunit (run_sawExpression (by simp [ParserState.start]) hrun)

end Conjunction

end Bdp.Selector
