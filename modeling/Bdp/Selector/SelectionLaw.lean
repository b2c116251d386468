import Bdp.Selector.GrammarLaw
import Bdp.Selector.Selection

/-!
# Limits and evaluation

Under a policy the parser makes the nodes that it makes without one, and stops at the first that
the policy refuses. A node is at least as deep and as large as each of its parts, so that the limits
hold for all of them when they hold for the whole. The evaluation with frames ends with the value of
the expression.
-/

namespace Bdp.Selector

open Option (bind_eq_some_iff)
open Option (bind_eq_bind pure_def)

section Policies

variable (check : AstPolicy)

def ValueNode.Within : ValueNode → Prop
  | .path segments => check (segments.length + 1) (segments.length + 1) = true
  | .literal _ => True

/-- The policy admits the node and all its parts. -/
def BooleanNode.Within : BooleanNode → Prop
  | .path segments => check (segments.length + 1) (segments.length + 1) = true
  | .comparison operator left right => (left.Within check ∧ right.Within check) ∧
      check (BooleanNode.comparison operator left right).depth
        (BooleanNode.comparison operator left right).nodes = true
  | .not operand => operand.Within ∧
      check (BooleanNode.not operand).depth (BooleanNode.not operand).nodes = true
  | .and left right => (left.Within ∧ right.Within) ∧
      check (BooleanNode.and left right).depth (BooleanNode.and left right).nodes = true
  | .or left right => (left.Within ∧ right.Within) ∧
      check (BooleanNode.or left right).depth (BooleanNode.or left right).nodes = true
  | .group operand => operand.Within ∧
      check (BooleanNode.group operand).depth (BooleanNode.group operand).nodes = true

def AstNode.Within : AstNode → Prop
  | .boolean node => node.Within check
  | .literal _ => True

def ValuesWithin (values : List AstNode) : Prop := ∀ node ∈ values, node.Within check

/-- One computation is the other one, stopped by the policy. -/
def Bounds {α β : Type} (admitted : α → Prop) (bounded plain : α → Option β)
    (result : β → Prop) : Prop :=
  ∀ input output, (bounded input = some output ∧ admitted input) ↔
    (plain input = some output ∧ result output)

variable {check}

theorem Bounds.bind {α β γ : Type} {P : α → Prop} {Q : β → Prop} {R : γ → Prop}
    {f g : α → Option β} {f' g' : β → Option γ} (h : Bounds P f g Q) (h' : Bounds Q f' g' R) :
    Bounds P (fun input ↦ (f input).bind f') (fun input ↦ (g input).bind g') R := by
  intro input output
  simp only [bind_eq_some_iff]
  constructor
  · rintro ⟨⟨middle, hmiddle, houtput⟩, hadmitted⟩
    obtain ⟨hplain, hwithin⟩ := (h input middle).mp ⟨hmiddle, hadmitted⟩
    obtain ⟨hrest, hresult⟩ := (h' middle output).mp ⟨houtput, hwithin⟩
    exact ⟨⟨middle, hplain, hrest⟩, hresult⟩
  · rintro ⟨⟨middle, hmiddle, houtput⟩, hresult⟩
    obtain ⟨hrest, hwithin⟩ := (h' middle output).mpr ⟨houtput, hresult⟩
    obtain ⟨hbounded, hadmitted⟩ := (h input middle).mpr ⟨hmiddle, hwithin⟩
    exact ⟨⟨middle, hbounded, hrest⟩, hadmitted⟩

variable {values : List AstNode} {node : AstNode}

theorem valuesWithin_cons :
    ValuesWithin check (node :: values) ↔ node.Within check ∧ ValuesWithin check values :=
  List.forall_mem_cons

variable {output : List AstNode}

theorem push_eq_some {node : BooleanNode} : push check values node = some output ↔
      check node.depth node.nodes = true ∧ .boolean node :: values = output := by
  unfold push
  split <;> simp_all

theorem requireBoolean_eq_some {boolean : BooleanNode} :
    requireBoolean node = some boolean ↔ node = .boolean boolean := by
  cases node <;> simp [requireBoolean]

theorem within_of_requireValue {value : ValueNode}
    (h : requireValue node = some value) : node.Within check ↔ value.Within check := by
  match node with
  | .literal literal => cases h; exact Iff.rfl
  | .boolean (.path segments) => cases h; exact Iff.rfl

theorem makeComparison_eq_some {operator : Comparison} {left right : ValueNode}
    (h : makeComparison operator left right = some node) :
    node = .boolean (.comparison operator left right) := by
  cases left <;> cases right <;> cases h <;> rfl

theorem valuesWithin_pair {join : BooleanNode → BooleanNode → BooleanNode}
    (h : ∀ left right, (join left right).Within check ↔ (left.Within check ∧ right.Within check) ∧
        check (join left right).depth (join left right).nodes = true) {left right : AstNode} :
    (∃ leftNode, left = .boolean leftNode ∧ ∃ rightNode, right = .boolean rightNode ∧
        check (join leftNode rightNode).depth (join leftNode rightNode).nodes = true ∧
          .boolean (join leftNode rightNode) :: values = output) ∧
      ValuesWithin check (right :: left :: values) ↔
    (∃ leftNode, left = .boolean leftNode ∧ ∃ rightNode, right = .boolean rightNode ∧
        .boolean (join leftNode rightNode) :: values = output) ∧ ValuesWithin check output := by
  constructor
  · rintro ⟨⟨leftNode, rfl, rightNode, rfl, hcheck, rfl⟩, hwithin⟩
    simp only [valuesWithin_cons] at hwithin
    exact ⟨⟨leftNode, rfl, rightNode, rfl, rfl⟩,
      valuesWithin_cons.mpr ⟨(h _ _).mpr ⟨⟨hwithin.2.1, hwithin.1⟩, hcheck⟩, hwithin.2.2⟩⟩
  · rintro ⟨⟨leftNode, rfl, rightNode, rfl, rfl⟩, hwithin⟩
    obtain ⟨hnode, hvalues⟩ := valuesWithin_cons.mp hwithin
    obtain ⟨⟨hleft, hright⟩, hcheck⟩ := (h _ _).mp hnode
    refine ⟨⟨leftNode, rfl, rightNode, rfl, hcheck, rfl⟩, ?_⟩
    exact valuesWithin_cons.mpr ⟨hright, valuesWithin_cons.mpr ⟨hleft, hvalues⟩⟩

theorem reduceOperator_bounds (operator : Operator) :
    Bounds (ValuesWithin check) (reduceOperatorWithin check operator) (reduceOperator operator)
      (ValuesWithin check) := by
  intro values output
  match operator, values with
  | .not, operand :: values =>
    simp only [reduceOperatorWithin, reduceOperator, bind_eq_bind, bind_eq_some_iff,
      requireBoolean_eq_some, push_eq_some, pure_def, Option.some.injEq]
    constructor
    · rintro ⟨⟨node, rfl, hcheck, rfl⟩, hwithin⟩
      rw [valuesWithin_cons] at hwithin
      exact ⟨⟨node, rfl, rfl⟩, valuesWithin_cons.mpr ⟨⟨hwithin.1, hcheck⟩, hwithin.2⟩⟩
    · rintro ⟨⟨node, rfl, rfl⟩, hwithin⟩
      obtain ⟨⟨hnode, hcheck⟩, hvalues⟩ := valuesWithin_cons.mp hwithin
      exact ⟨⟨node, rfl, hcheck, rfl⟩, valuesWithin_cons.mpr ⟨hnode, hvalues⟩⟩
  | .and, right :: left :: values =>
    simp only [reduceOperatorWithin, reduceOperator, bind_eq_bind, bind_eq_some_iff,
      requireBoolean_eq_some, push_eq_some, pure_def, Option.some.injEq]
    exact valuesWithin_pair fun _ _ ↦ Iff.rfl
  | .or, right :: left :: values =>
    simp only [reduceOperatorWithin, reduceOperator, bind_eq_bind, bind_eq_some_iff,
      requireBoolean_eq_some, push_eq_some, pure_def, Option.some.injEq]
    exact valuesWithin_pair fun _ _ ↦ Iff.rfl
  | .compare comparison, right :: left :: values =>
    simp only [reduceOperatorWithin, reduceOperator, bind_eq_bind, bind_eq_some_iff,
      requireBoolean_eq_some, push_eq_some, pure_def, Option.some.injEq]
    constructor
    · rintro ⟨⟨leftValue, hleft, rightValue, hright, made, hmade, node, rfl, hcheck, rfl⟩, hwithin⟩
      cases makeComparison_eq_some hmade
      simp only [valuesWithin_cons, within_of_requireValue hleft,
        within_of_requireValue hright] at hwithin
      exact ⟨⟨leftValue, hleft, rightValue, hright, _, hmade, rfl⟩,
        valuesWithin_cons.mpr ⟨⟨⟨hwithin.2.1, hwithin.1⟩, hcheck⟩, hwithin.2.2⟩⟩
    · rintro ⟨⟨leftValue, hleft, rightValue, hright, made, hmade, rfl⟩, hwithin⟩
      obtain rfl := makeComparison_eq_some hmade
      obtain ⟨⟨⟨hleftWithin, hrightWithin⟩, hcheck⟩, hvalues⟩ := valuesWithin_cons.mp hwithin
      refine ⟨⟨leftValue, hleft, rightValue, hright, _, hmade, _, rfl, hcheck, rfl⟩, ?_⟩
      simp only [valuesWithin_cons, within_of_requireValue hleft, within_of_requireValue hright]
      exact ⟨hrightWithin, hleftWithin, hvalues⟩
  | .not, [] => simp [reduceOperatorWithin, reduceOperator]
  | .and, [] => simp [reduceOperatorWithin, reduceOperator]
  | .or, [] => simp [reduceOperatorWithin, reduceOperator]
  | .compare _, [] => simp [reduceOperatorWithin, reduceOperator]
  | .and, [_] => simp [reduceOperatorWithin, reduceOperator]
  | .or, [_] => simp [reduceOperatorWithin, reduceOperator]
  | .compare _, [_] => simp [reduceOperatorWithin, reduceOperator]

theorem reduceForIncoming_bounds (incoming : Operator) (operators : List OperatorEntry) :
    Bounds (ValuesWithin check) (reduceForIncomingWithin check incoming operators)
      (reduceForIncoming incoming operators) (fun reduced ↦ ValuesWithin check reduced.2) := by
  have hkeep (operators : List OperatorEntry) : Bounds (ValuesWithin check)
      (fun values ↦ some (operators, values)) (fun values ↦ some (operators, values))
      (fun reduced ↦ ValuesWithin check reduced.2) := by
    intro values output
    simp only [Option.some.injEq]
    constructor <;> rintro ⟨rfl, hwithin⟩ <;> exact ⟨rfl, hwithin⟩
  induction operators with
  | nil => exact hkeep []
  | cons entry operators ih =>
    cases entry with
    | openGroup count => exact hkeep _
    | operator top =>
      intro values output
      rw [reduceForIncomingWithin, reduceForIncoming]
      split
      · exact hkeep _ values output
      · exact (reduceOperator_bounds top).bind ih values output

variable (operators : List OperatorEntry)

theorem reduceAll_bounds :
    Bounds (ValuesWithin check) (reduceAllWithin check operators) (reduceAll operators)
      (ValuesWithin check) := by
  induction operators with
  | nil =>
    intro values output
    simp only [reduceAllWithin, reduceAll, Option.some.injEq]
    constructor <;> rintro ⟨rfl, hwithin⟩ <;> exact ⟨rfl, hwithin⟩
  | cons entry operators ih =>
    cases entry with
    | openGroup count =>
      intro values output
      simp [reduceAllWithin, reduceAll]
    | operator operator => exact (reduceOperator_bounds operator).bind ih

theorem closeGroup_bounds :
    Bounds (ValuesWithin check) (closeGroupWithin check operators) (closeGroup operators)
      (fun closed ↦ ValuesWithin check closed.2) := by
  induction operators with
  | nil =>
    intro values output
    simp [closeGroupWithin, closeGroup]
  | cons entry operators ih =>
    cases entry with
    | operator operator => exact (reduceOperator_bounds operator).bind ih
    | openGroup count =>
      intro values output
      cases values with
      | nil => simp [closeGroupWithin, closeGroup]
      | cons operand rest =>
        rw [closeGroupWithin, closeGroup]
        split
        · simp only [bind_eq_bind, bind_eq_some_iff, requireBoolean_eq_some,
            push_eq_some, pure_def, Option.some.injEq]
          constructor
          · rintro ⟨⟨node, rfl, values, ⟨hcheck, rfl⟩, rfl⟩, hwithin⟩
            rw [valuesWithin_cons] at hwithin
            exact ⟨⟨node, rfl, rfl⟩, valuesWithin_cons.mpr ⟨⟨hwithin.1, hcheck⟩, hwithin.2⟩⟩
          · rintro ⟨⟨node, rfl, rfl⟩, hwithin⟩
            obtain ⟨⟨hnode, hcheck⟩, hvalues⟩ := valuesWithin_cons.mp hwithin
            exact ⟨⟨node, rfl, _, ⟨hcheck, rfl⟩, rfl⟩, valuesWithin_cons.mpr ⟨hnode, hvalues⟩⟩
        · simp

theorem step_bounds (token : Token) :
    Bounds (fun state ↦ ValuesWithin check state.values) (fun state ↦ stepWithin check state token)
      (fun state ↦ step state token) (fun state ↦ ValuesWithin check state.values) := by
  intro state output
  obtain ⟨values, operators, expecting, saw⟩ := state
  have hsame {next : ParserState} (hvalues : next.values = values) :
      (some next = some output ∧ ValuesWithin check values) ↔
        (some next = some output ∧ ValuesWithin check output.values) := by
    simp only [Option.some.injEq]
    constructor <;> rintro ⟨rfl, hwithin⟩
    · exact ⟨rfl, hvalues ▸ hwithin⟩
    · exact ⟨rfl, hvalues ▸ hwithin⟩
  cases expecting with
  | true =>
    change (stepOperandWithin check ⟨values, operators, true, saw⟩ token = some output ∧ _) ↔
      (stepOperand ⟨values, operators, true, saw⟩ token = some output ∧ _)
    cases token with
    | operator operator =>
      cases operator with
      | not =>
        rw [stepOperandWithin, stepOperand]
        split
        · simp
        · exact hsame rfl
      | _ => simp [stepOperandWithin, stepOperand]
    | openParen => exact hsame rfl
    | path segments =>
      simp only [stepOperandWithin, stepOperand, bind_eq_bind, bind_eq_some_iff,
        push_eq_some, pure_def, Option.some.injEq]
      constructor
      · rintro ⟨⟨values, ⟨hcheck, rfl⟩, rfl⟩, hwithin⟩
        exact ⟨rfl, valuesWithin_cons.mpr ⟨hcheck, hwithin⟩⟩
      · rintro ⟨rfl, hwithin⟩
        obtain ⟨hcheck, hvalues⟩ := valuesWithin_cons.mp hwithin
        exact ⟨⟨_, ⟨hcheck, rfl⟩, rfl⟩, hvalues⟩
    | literal value =>
      simp only [stepOperandWithin, stepOperand, Option.some.injEq]
      constructor
      · rintro ⟨rfl, hwithin⟩
        exact ⟨rfl, valuesWithin_cons.mpr ⟨trivial, hwithin⟩⟩
      · rintro ⟨rfl, hwithin⟩
        exact ⟨rfl, (valuesWithin_cons.mp hwithin).2⟩
    | _ => simp [stepOperandWithin, stepOperand]
  | false =>
    change (stepOperatorWithin check ⟨values, operators, false, saw⟩ token = some output ∧ _) ↔
      (stepOperator ⟨values, operators, false, saw⟩ token = some output ∧ _)
    have hbuild (build : List OperatorEntry → List AstNode → ParserState)
        (hvalues : ∀ operators values, (build operators values).values = values) :
        Bounds (fun reduced : List OperatorEntry × List AstNode ↦ ValuesWithin check reduced.2)
          (fun reduced ↦ some (build reduced.1 reduced.2))
          (fun reduced ↦ some (build reduced.1 reduced.2))
          (fun state ↦ ValuesWithin check state.values) := by
      intro reduced output
      simp only [Option.some.injEq]
      constructor <;> rintro ⟨rfl, hwithin⟩
      · exact ⟨rfl, (hvalues reduced.1 reduced.2).symm ▸ hwithin⟩
      · exact ⟨rfl, hvalues reduced.1 reduced.2 ▸ hwithin⟩
    cases token with
    | operator operator =>
      cases operator with
      | not => simp [stepOperatorWithin, stepOperator]
      | _ =>
        exact ((reduceForIncoming_bounds _ operators).bind
          (hbuild (fun operators values ↦ ⟨values, _ :: operators, true, saw⟩)
            fun _ _ ↦ rfl)) values output
    | closeParen =>
      exact ((closeGroup_bounds operators).bind
        (hbuild (fun operators values ↦ ⟨values, operators, false, saw⟩) fun _ _ ↦ rfl))
        values output
    | _ => simp [stepOperatorWithin, stepOperator]

theorem close_bounds :
    Bounds (fun state ↦ ValuesWithin check state.values) (closeWithin check) close
      (BooleanNode.Within check) := by
  intro state output
  rw [closeWithin, close]
  split
  · simp
  · refine ((reduceAll_bounds state.operators).bind ?_) state.values output
    intro values node
    rcases values with _ | ⟨_ | boolean, _ | _⟩
    case nil => simp [takeSingleBoolean]
    case cons.literal.nil => simp [takeSingleBoolean, requireBoolean]
    case cons.boolean.nil =>
      simp only [takeSingleBoolean, requireBoolean, Option.some.injEq]
      constructor
      · rintro ⟨rfl, hwithin⟩
        exact ⟨rfl, (valuesWithin_cons.mp hwithin).1⟩
      · rintro ⟨rfl, hwithin⟩
        exact ⟨rfl, valuesWithin_cons.mpr ⟨hwithin, fun _ hmem ↦ absurd hmem List.not_mem_nil⟩⟩
    all_goals simp [takeSingleBoolean]

theorem parseExpression_bounds (tokens : List Token) :
    Bounds (fun state ↦ ValuesWithin check state.values)
      (fun state ↦ parseExpressionWithin check state tokens)
      (fun state ↦ parseExpression state tokens) (BooleanNode.Within check) := by
  induction tokens with
  | nil =>
    intro state output
    simp [parseExpressionWithin, parseExpression]
  | cons token tokens ih =>
    by_cases hbracket : token = .closeBracket
    · subst hbracket
      have hend : Bounds (BooleanNode.Within check)
          (fun expression ↦ (guard (tokens = []) : Option Unit).bind fun _ ↦ some expression)
          (fun expression ↦ (guard (tokens = []) : Option Unit).bind fun _ ↦ some expression)
          (BooleanNode.Within check) := by
        intro expression output
        simp only [bind_eq_some_iff, Option.some.injEq]
        constructor <;> rintro ⟨⟨⟨⟩, hguard, rfl⟩, hwithin⟩ <;> exact ⟨⟨⟨⟩, hguard, rfl⟩, hwithin⟩
      exact close_bounds.bind hend
    · intro state output
      have hwithin : parseExpressionWithin check state (token :: tokens) =
          (stepWithin check state token).bind (parseExpressionWithin check · tokens) := by
        rw [parseExpressionWithin]
        · rfl
        · exact hbracket
      have hplain : parseExpression state (token :: tokens) =
          (step state token).bind (parseExpression · tokens) := by
        rw [parseExpression]
        · rfl
        · exact hbracket
      change (parseExpressionWithin check state (token :: tokens) = _ ∧ _) ↔
        (parseExpression state (token :: tokens) = _ ∧ _)
      rw [hwithin, hplain]
      exact ((step_bounds token).bind ih) state output

theorem parseSelectorWithin_iff {number : List Char → Option ℚ} {source : List Char}
    {expression : BooleanNode} :
    parseSelectorWithin check number source = some expression ↔
      parseSelector number source = some expression ∧ expression.Within check := by
  have htokens (tokens : List Token) : parseTokensWithin check tokens = some expression ↔
      parseTokens tokens = some expression ∧ expression.Within check := by
    unfold parseTokensWithin parseTokens
    split
    next inner =>
      have hbounds := @parseExpression_bounds check inner .start expression
      rwa [and_iff_left (show ValuesWithin check ParserState.start.values from nofun)] at hbounds
    · simp
  simp only [parseSelectorWithin, parseSelector, bind_eq_bind, bind_eq_some_iff, htokens]
  constructor
  · rintro ⟨tokens, hscan, hparse, hwithin⟩
    exact ⟨⟨tokens, hscan, hparse⟩, hwithin⟩
  · rintro ⟨⟨tokens, hscan, hparse⟩, hwithin⟩
    exact ⟨tokens, hscan, hparse, hwithin⟩

end Policies

section Limits

variable {limits : ReadSelectorLimits}

theorem enforceAstLimits_iff {depth nodes : ℕ} : enforceAstLimits limits depth nodes = true ↔
    depth ≤ limits.depth ∧ nodes ≤ limits.nodes := decide_eq_true_iff

theorem valueWithin_iff (value : ValueNode) (hdepth : value.depth ≤ limits.depth)
    (hnodes : value.nodes ≤ limits.nodes) : value.Within (enforceAstLimits limits) := by
  cases value with
  | path segments => exact enforceAstLimits_iff.mpr ⟨hdepth, hnodes⟩
  | literal literal => trivial

theorem within_limits_iff (expression : BooleanNode) : expression.Within (enforceAstLimits limits) ↔
      expression.depth ≤ limits.depth ∧ expression.nodes ≤ limits.nodes := by
  induction expression with
  | path segments => exact enforceAstLimits_iff
  | comparison operator left right =>
    simp only [BooleanNode.Within, enforceAstLimits_iff]
    refine ⟨And.right, fun h ↦ ⟨⟨?_, ?_⟩, h⟩⟩ <;>
    · simp only [BooleanNode.depth, BooleanNode.nodes] at h
      exact valueWithin_iff _ (by omega) (by omega)
  | not operand ih | group operand ih =>
    simp only [BooleanNode.Within, enforceAstLimits_iff, ih]
    refine ⟨And.right, fun h ↦ ⟨?_, h⟩⟩
    simp only [BooleanNode.depth, BooleanNode.nodes] at h
    omega
  | and left right ihLeft ihRight | or left right ihLeft ihRight =>
    simp only [BooleanNode.Within, enforceAstLimits_iff, ihLeft, ihRight]
    refine ⟨And.right, fun h ↦ ⟨?_, h⟩⟩
    simp only [BooleanNode.depth, BooleanNode.nodes] at h
    omega

end Limits

section Evaluation

variable (candidate : JsonValue ℚ)
variable (expression : BooleanNode)

theorem evaluateFrames_spec : ∃ turns ≤ 2 * expression.nodes, ∀ fuel frames results,
      evaluateFrames candidate (fuel + turns) (⟨expression, false⟩ :: frames) results =
        evaluateFrames candidate fuel frames (evaluate candidate expression :: results) := by
  induction expression with
  | path segments => exact ⟨1, by simp only [BooleanNode.nodes]; omega, fun _ _ _ ↦ rfl⟩
  | comparison operator left right =>
    exact ⟨1, by simp only [BooleanNode.nodes]; omega, fun _ _ _ ↦ rfl⟩
  | not operand ih | group operand ih =>
    obtain ⟨turns, hturns, hoperand⟩ := ih
    refine ⟨turns + 2, by simp only [BooleanNode.nodes]; omega, fun fuel frames results ↦ ?_⟩
    rw [show fuel + (turns + 2) = (fuel + 1 + turns) + 1 by omega]
    change evaluateFrames candidate (fuel + 1 + turns) (⟨operand, false⟩ :: _ :: frames) results = _
    rw [hoperand]
    rfl
  | and left right ihLeft ihRight | or left right ihLeft ihRight =>
    obtain ⟨turnsLeft, hturnsLeft, hleft⟩ := ihLeft
    obtain ⟨turnsRight, hturnsRight, hright⟩ := ihRight
    refine ⟨turnsLeft + turnsRight + 2, by simp only [BooleanNode.nodes]; omega,
      fun fuel frames results ↦ ?_⟩
    rw [show fuel + (turnsLeft + turnsRight + 2) = (fuel + 1 + turnsRight + turnsLeft) + 1 by omega]
    change evaluateFrames candidate (fuel + 1 + turnsRight + turnsLeft)
      (⟨left, false⟩ :: ⟨right, false⟩ :: _ :: frames) results = _
    rw [hleft, hright]
    rfl

theorem evaluateLoop_eq :
    evaluateLoop expression candidate = some (evaluate candidate expression) := by
  obtain ⟨turns, hturns, hspec⟩ := evaluateFrames_spec candidate expression
  have hfuel : 2 * expression.nodes + 1 = (2 * expression.nodes - turns + 1) + turns := by omega
  rw [evaluateLoop, hfuel, hspec]
  rfl

theorem selectMatches_eq (candidates : List (JsonValue ℚ)) :
    selectMatches expression candidates = some (select expression candidates) := by
  induction candidates with
  | nil => rfl
  | cons candidate candidates ih =>
    rw [selectMatches, evaluateLoop_eq, ih, select, select, List.filter_cons]
    cases evaluate candidate expression <;> rfl

end Evaluation

section Selection

variable {number : List Char → Option ℚ} {limits : ReadSelectorLimits} {selector : List Char}
  {candidates : List (JsonValue ℚ)}

theorem selectReadResources_iff {selected : List (JsonValue ℚ)} :
    selectReadResources number limits selector candidates = some selected ↔
      ∃ expression, parseSelector number selector = some expression ∧
        sourceBytes selector ≤ limits.bytes ∧ expression.depth ≤ limits.depth ∧
        expression.nodes ≤ limits.nodes ∧ select expression candidates = selected := by
  simp only [selectReadResources, guard, bind_eq_bind, bind_eq_some_iff,
    selectMatches_eq, parseSelectorWithin_iff, within_limits_iff, Option.some.injEq]
  constructor
  · rintro ⟨⟨⟩, hguard, expression, ⟨hparse, hdepth, hnodes⟩, hselected⟩
    have hbytes : sourceBytes selector ≤ limits.bytes := by
      by_contra hbytes
      simp [hbytes, failure] at hguard
    exact ⟨expression, hparse, hbytes, hdepth, hnodes, hselected⟩
  · rintro ⟨expression, hparse, hbytes, hdepth, hnodes, hselected⟩
    exact ⟨(), if_pos hbytes, expression, ⟨hparse, hdepth, hnodes⟩, hselected⟩

theorem analyzeSelectorGrammar_eq {enclosingBytes : ℕ} {analysis : SelectorAnalysis}
    (h : analyzeSelectorGrammar number enclosingBytes selector = some analysis) :
    ∃ expression, parseSelector number selector = some expression ∧
      analysis = ⟨sourceBytes selector, expression.depth, expression.nodes⟩ := by
  obtain ⟨⟨⟩, -, h⟩ := bind_eq_some_iff.mp h
  obtain ⟨⟨⟩, -, h⟩ := bind_eq_some_iff.mp h
  obtain ⟨expression, hparse, h⟩ := bind_eq_some_iff.mp h
  exact ⟨expression, (parseSelectorWithin_iff.mp hparse).1, (Option.some.inj h).symm⟩

/-- A text of which the grammar is analyzed is accepted within exactly the limits that its bytes,
its depth and its nodes do not exceed. -/
theorem selection_accepts_iff (enclosingBytes : ℕ) (analysis : SelectorAnalysis)
    (h : analyzeSelectorGrammar number enclosingBytes selector = some analysis)
    (limits : ReadSelectorLimits) (candidates : List (JsonValue ℚ)) :
    (selectReadResources number limits selector candidates).isSome = true ↔
      analysis.bytes ≤ limits.bytes ∧ analysis.depth ≤ limits.depth ∧
        analysis.nodes ≤ limits.nodes := by
  obtain ⟨expression, hparse, rfl⟩ := analyzeSelectorGrammar_eq h
  rw [Option.isSome_iff_exists]
  constructor
  · rintro ⟨selected, hselected⟩
    obtain ⟨other, hother, hbytes, hdepth, hnodes, -⟩ := selectReadResources_iff.mp hselected
    obtain rfl : other = expression := Option.some.inj (hother.symm.trans hparse)
    exact ⟨hbytes, hdepth, hnodes⟩
  · rintro ⟨hbytes, hdepth, hnodes⟩
    exact ⟨_, selectReadResources_iff.mpr ⟨expression, hparse, hbytes, hdepth, hnodes, rfl⟩⟩

theorem negation_accepts_iff :
    analyzeSelectorGrammar (fun _ ↦ none) 64 "$[?!(@.a)]".toList = some ⟨10, 4, 4⟩ ∧
      ∀ limits candidates,
        (selectReadResources (fun _ ↦ none) limits "$[?!(@.a)]".toList candidates).isSome = true ↔
          10 ≤ limits.bytes ∧ 4 ≤ limits.depth ∧ 4 ≤ limits.nodes :=
  have h : analyzeSelectorGrammar (fun _ ↦ none) 64 "$[?!(@.a)]".toList = some ⟨10, 4, 4⟩ := by
    decide +kernel
  ⟨h, selection_accepts_iff 64 ⟨10, 4, 4⟩ h⟩

end Selection

end Bdp.Selector
