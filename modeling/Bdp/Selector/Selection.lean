import Bdp.Selector.Grammar

/-!
# Selection within limits

The parser of selectors as it runs under a policy on the size of every node that it makes, the
evaluation of an expression with a stack of frames, and the selection of resources within the limits
of bytes, depth and nodes.
-/

namespace Bdp.Selector

section Sizes

def ValueNode.depth : ValueNode → ℕ
  | .path segments => segments.length + 1
  | .literal _ => 1

def ValueNode.nodes : ValueNode → ℕ
  | .path segments => segments.length + 1
  | .literal _ => 1

def BooleanNode.depth : BooleanNode → ℕ
  | .path segments => segments.length + 1
  | .comparison _ left right => max left.depth right.depth + 1
  | .not operand => operand.depth + 1
  | .and left right => max left.depth right.depth + 1
  | .or left right => max left.depth right.depth + 1
  | .group operand => operand.depth + 1

def BooleanNode.nodes : BooleanNode → ℕ
  | .path segments => segments.length + 1
  | .comparison _ left right => left.nodes + right.nodes + 1
  | .not operand => operand.nodes + 1
  | .and left right => left.nodes + right.nodes + 1
  | .or left right => left.nodes + right.nodes + 1
  | .group operand => operand.nodes + 1

end Sizes

section Policies

/-- What the policy says of a node's depth and number of nodes. -/
abbrev AstPolicy := ℕ → ℕ → Bool

variable (check : AstPolicy)

/-- The values with a node that the policy admits on top. -/
def push (values : List AstNode) (node : BooleanNode) : Option (List AstNode) :=
  if check node.depth node.nodes then some (.boolean node :: values) else none

def reduceOperatorWithin : Operator → List AstNode → Option (List AstNode)
  | .not, operand :: values => do
    let operand ← requireBoolean operand
    push check values (.not operand)
  | .and, right :: left :: values => do
    let left ← requireBoolean left
    let right ← requireBoolean right
    push check values (.and left right)
  | .or, right :: left :: values => do
    let left ← requireBoolean left
    let right ← requireBoolean right
    push check values (.or left right)
  | .compare operator, right :: left :: values => do
    let left ← requireValue left
    let right ← requireValue right
    let node ← makeComparison operator left right
    let node ← requireBoolean node
    push check values node
  | _, _ => none

def reduceForIncomingWithin (incoming : Operator) :
    List OperatorEntry → List AstNode → Option (List OperatorEntry × List AstNode)
  | .operator top :: operators, values =>
    if precedence top < precedence incoming then some (.operator top :: operators, values)
    else do
      let values ← reduceOperatorWithin check top values
      reduceForIncomingWithin incoming operators values
  | operators, values => some (operators, values)

def closeGroupWithin :
    List OperatorEntry → List AstNode → Option (List OperatorEntry × List AstNode)
  | [], _ => none
  | .openGroup valueCount :: operators, values =>
    match values with
    | [] => none
    | operand :: rest =>
      if rest.length = valueCount then do
        let operand ← requireBoolean operand
        let values ← push check rest (.group operand)
        return (operators, values)
      else none
  | .operator operator :: operators, values => do
    let values ← reduceOperatorWithin check operator values
    closeGroupWithin operators values

def reduceAllWithin : List OperatorEntry → List AstNode → Option (List AstNode)
  | [], values => some values
  | .openGroup _ :: _, _ => none
  | .operator operator :: operators, values => do
    let values ← reduceOperatorWithin check operator values
    reduceAllWithin operators values

def stepOperandWithin (state : ParserState) : Token → Option ParserState
  | .operator .not =>
    if state.operators.head? = some (.operator .not) then none
    else some { state with operators := .operator .not :: state.operators }
  | .openParen =>
    some { state with operators := .openGroup state.values.length :: state.operators }
  | .path segments => do
    let values ← push check state.values (.path segments)
    return ⟨values, state.operators, false, true⟩
  | .literal value => some ⟨.literal value :: state.values, state.operators, false, true⟩
  | _ => none

def stepOperatorWithin (state : ParserState) : Token → Option ParserState
  | .operator .not => none
  | .operator operator => do
    let (operators, values) ← reduceForIncomingWithin check operator state.operators state.values
    return ⟨values, .operator operator :: operators, true, state.sawExpression⟩
  | .closeParen => do
    let (operators, values) ← closeGroupWithin check state.operators state.values
    return ⟨values, operators, false, state.sawExpression⟩
  | _ => none

def stepWithin (state : ParserState) (token : Token) : Option ParserState :=
  if state.expectingOperand then stepOperandWithin check state token
  else stepOperatorWithin check state token

def closeWithin (state : ParserState) : Option BooleanNode :=
  if state.expectingOperand ∨ state.sawExpression = false ∨
      state.operators.any OperatorEntry.isOpenGroup then none
  else do
    let values ← reduceAllWithin check state.operators state.values
    takeSingleBoolean values

def parseExpressionWithin (state : ParserState) : List Token → Option BooleanNode
  | [] => none
  | .closeBracket :: trailing => do
    let expression ← closeWithin check state
    guard (trailing = [])
    return expression
  | token :: tokens => do
    let state ← stepWithin check state token
    parseExpressionWithin state tokens

def parseTokensWithin : List Token → Option BooleanNode
  | .dollar :: .openBracket :: .question :: tokens => parseExpressionWithin check .start tokens
  | _ => none

/-- The expression of a selector's text whose nodes the policy all admits. -/
def parseSelectorWithin (number : List Char → Option ℚ) (source : List Char) :
    Option BooleanNode := do
  let tokens ← tokenize number (source.length + 1) source
  parseTokensWithin check tokens

end Policies

section Evaluation

structure EvaluatedFrame where
  node : BooleanNode
  visited : Bool

/-- One turn of the evaluation: the frames and the results, topmost first. -/
def evaluateFrame (candidate : JsonValue ℚ) (frame : EvaluatedFrame)
    (frames : List EvaluatedFrame) (results : List Bool) :
    Option (List EvaluatedFrame × List Bool) :=
  if frame.visited = false then
    match frame.node with
    | .path segments => some (frames, (resolvePath segments candidate).isSome :: results)
    | .comparison operator left right =>
      some (frames, compare operator (resolveValue candidate left)
        (resolveValue candidate right) :: results)
    | .not operand => some (⟨operand, false⟩ :: ⟨frame.node, true⟩ :: frames, results)
    | .group operand => some (⟨operand, false⟩ :: ⟨frame.node, true⟩ :: frames, results)
    | .and left right =>
      some (⟨left, false⟩ :: ⟨right, false⟩ :: ⟨frame.node, true⟩ :: frames, results)
    | .or left right =>
      some (⟨left, false⟩ :: ⟨right, false⟩ :: ⟨frame.node, true⟩ :: frames, results)
  else
    match frame.node, results with
    | .not _, result :: results => some (frames, (!result) :: results)
    | .group _, result :: results => some (frames, result :: results)
    | .and _ _, right :: left :: results => some (frames, (left && right) :: results)
    | .or _ _, right :: left :: results => some (frames, (left || right) :: results)
    | _, _ => none

/-- The loop of the evaluation, for as many turns as the fuel allows. -/
def evaluateFrames (candidate : JsonValue ℚ) :
    ℕ → List EvaluatedFrame → List Bool → Option Bool
  | 0, _, _ => none
  | _ + 1, [], results => results.head?
  | fuel + 1, frame :: frames, results => do
    let (frames, results) ← evaluateFrame candidate frame frames results
    evaluateFrames candidate fuel frames results

/-- No evaluation takes more turns than two for each node and the last one. -/
def evaluateLoop (expression : BooleanNode) (candidate : JsonValue ℚ) : Option Bool :=
  evaluateFrames candidate (2 * expression.nodes + 1) [⟨expression, false⟩] []

end Evaluation

section Limits

/-- Validated limits: positive safe integers. -/
structure ReadSelectorLimits where
  bytes : ℕ
  depth : ℕ
  nodes : ℕ
  positive : 0 < bytes ∧ 0 < depth ∧ 0 < nodes
  safe : bytes ≤ 9007199254740991 ∧ depth ≤ 9007199254740991 ∧ nodes ≤ 9007199254740991

def enforceAstLimits (limits : ReadSelectorLimits) : AstPolicy :=
  fun depth nodes ↦ decide (depth ≤ limits.depth ∧ nodes ≤ limits.nodes)

def sourceBytes (source : List Char) : ℕ := (source.flatMap String.utf8EncodeChar).length

variable (number : List Char → Option ℚ)

/-- Keep the candidates of which the evaluation is true; it must end for each. -/
def selectMatches (expression : BooleanNode) :
    List (JsonValue ℚ) → Option (List (JsonValue ℚ))
  | [] => some []
  | candidate :: candidates => do
    let result ← evaluateLoop expression candidate
    let found ← selectMatches expression candidates
    return if result then candidate :: found else found

def selectReadResources (limits : ReadSelectorLimits) (selector : List Char)
    (candidates : List (JsonValue ℚ)) : Option (List (JsonValue ℚ)) := do
  guard (sourceBytes selector ≤ limits.bytes)
  let expression ← parseSelectorWithin (enforceAstLimits limits) number selector
  selectMatches expression candidates

structure SelectorAnalysis where
  bytes : ℕ
  depth : ℕ
  nodes : ℕ
  deriving DecidableEq

/-- The grammar analysis of a selector inside a bounded body. -/
def analyzeSelectorGrammar (enclosingBytes : ℕ) (selector : List Char) :
    Option SelectorAnalysis := do
  guard (0 < enclosingBytes ∧ enclosingBytes ≤ 9007199254740991)
  guard (sourceBytes selector ≤ enclosingBytes)
  let expression ← parseSelectorWithin (fun _ _ ↦ true) number selector
  return ⟨sourceBytes selector, expression.depth, expression.nodes⟩

end Limits

end Bdp.Selector
