import Bdp.Selector.Tokens
import Bdp.Library.Json

/-!
# The selector grammar and its meaning

The operator-precedence parser of selectors, with its stacks of values and of operators written top
first, and the evaluation of a parsed expression on a resource.
-/

namespace Bdp.Selector

section Tree

inductive ValueNode where
  | path (segments : List Segment)
  | literal (value : Literal)
  deriving DecidableEq

inductive BooleanNode where
  | path (segments : List Segment)
  | comparison (operator : Comparison) (left right : ValueNode)
  | not (operand : BooleanNode)
  | and (left right : BooleanNode)
  | or (left right : BooleanNode)
  | group (operand : BooleanNode)
  deriving DecidableEq

inductive AstNode where
  | boolean (node : BooleanNode)
  | literal (value : Literal)
  deriving DecidableEq

def requireBoolean : AstNode → Option BooleanNode
  | .boolean node => some node
  | .literal _ => none

def requireValue : AstNode → Option ValueNode
  | .boolean (.path segments) => some (.path segments)
  | .literal value => some (.literal value)
  | .boolean _ => none

end Tree

section Stacks

inductive OperatorEntry where
  | operator (operator : Operator)
  | openGroup (valueCount : ℕ)
  deriving DecidableEq

def OperatorEntry.isOpenGroup : OperatorEntry → Bool
  | .openGroup _ => true
  | .operator _ => false

def precedence : Operator → ℕ
  | .not => 4
  | .compare _ => 3
  | .and => 2
  | .or => 1

/-- Two paths are not compared with each other. -/
def makeComparison (operator : Comparison) : ValueNode → ValueNode → Option AstNode
  | .path _, .path _ => none
  | left, right => some (.boolean (.comparison operator left right))

/-- The values after an operator took its operands, the right one from the top. -/
def reduceOperator : Operator → List AstNode → Option (List AstNode)
  | .not, operand :: values => do
    let operand ← requireBoolean operand
    return .boolean (.not operand) :: values
  | .and, right :: left :: values => do
    let left ← requireBoolean left
    let right ← requireBoolean right
    return .boolean (.and left right) :: values
  | .or, right :: left :: values => do
    let left ← requireBoolean left
    let right ← requireBoolean right
    return .boolean (.or left right) :: values
  | .compare operator, right :: left :: values => do
    let left ← requireValue left
    let right ← requireValue right
    let node ← makeComparison operator left right
    return node :: values
  | _, _ => none

/-- Operators that bind at least as tightly as the incoming one take their operands. -/
def reduceForIncoming (incoming : Operator) :
    List OperatorEntry → List AstNode → Option (List OperatorEntry × List AstNode)
  | .operator top :: operators, values =>
    if precedence top < precedence incoming then some (.operator top :: operators, values)
    else do
      let values ← reduceOperator top values
      reduceForIncoming incoming operators values
  | operators, values => some (operators, values)

def closeGroup :
    List OperatorEntry → List AstNode → Option (List OperatorEntry × List AstNode)
  | [], _ => none
  | .openGroup valueCount :: operators, values =>
    match values with
    | [] => none
    | operand :: rest =>
      if rest.length = valueCount then do
        let operand ← requireBoolean operand
        return (operators, .boolean (.group operand) :: rest)
      else none
  | .operator operator :: operators, values => do
    let values ← reduceOperator operator values
    closeGroup operators values

def reduceAll : List OperatorEntry → List AstNode → Option (List AstNode)
  | [], values => some values
  | .openGroup _ :: _, _ => none
  | .operator operator :: operators, values => do
    let values ← reduceOperator operator values
    reduceAll operators values

def takeSingleBoolean : List AstNode → Option BooleanNode
  | [node] => requireBoolean node
  | _ => none

end Stacks

section Parsing

structure ParserState where
  values : List AstNode
  operators : List OperatorEntry
  expectingOperand : Bool
  sawExpression : Bool
  deriving DecidableEq

def ParserState.start : ParserState := ⟨[], [], true, false⟩

def stepOperand (state : ParserState) : Token → Option ParserState
  | .operator .not =>
    if state.operators.head? = some (.operator .not) then none
    else some { state with operators := .operator .not :: state.operators }
  | .openParen =>
    some { state with operators := .openGroup state.values.length :: state.operators }
  | .path segments =>
    some ⟨.boolean (.path segments) :: state.values, state.operators, false, true⟩
  | .literal value => some ⟨.literal value :: state.values, state.operators, false, true⟩
  | _ => none

def stepOperator (state : ParserState) : Token → Option ParserState
  | .operator .not => none
  | .operator operator => do
    let (operators, values) ← reduceForIncoming operator state.operators state.values
    return ⟨values, .operator operator :: operators, true, state.sawExpression⟩
  | .closeParen => do
    let (operators, values) ← closeGroup state.operators state.values
    return ⟨values, operators, false, state.sawExpression⟩
  | _ => none

def step (state : ParserState) (token : Token) : Option ParserState :=
  if state.expectingOperand then stepOperand state token else stepOperator state token

def close (state : ParserState) : Option BooleanNode :=
  if state.expectingOperand ∨ state.sawExpression = false ∨
      state.operators.any OperatorEntry.isOpenGroup then none
  else do
    let values ← reduceAll state.operators state.values
    takeSingleBoolean values

/-- The loop of the parser behind `$[?`. Nothing follows the closing bracket. -/
def parseExpression (state : ParserState) : List Token → Option BooleanNode
  | [] => none
  | .closeBracket :: trailing => do
    let expression ← close state
    guard (trailing = [])
    return expression
  | token :: tokens => do
    let state ← step state token
    parseExpression state tokens

def parseTokens : List Token → Option BooleanNode
  | .dollar :: .openBracket :: .question :: tokens => parseExpression .start tokens
  | _ => none

/-- The expression of a selector's text; the fuel bounds the letters. -/
def parseSelector (number : List Char → Option ℚ) (source : List Char) : Option BooleanNode := do
  let tokens ← tokenize number (source.length + 1) source
  parseTokens tokens

end Parsing

section Evaluation

def rootSelectorMembers : List String :=
  ["id", "type", "source", "target", "properties", "metadata"]

/-- The item of a list at an index, a negative one counted from the end. -/
def itemAt (items : List (JsonValue ℚ)) (index : ℤ) : Option (JsonValue ℚ) :=
  if 0 ≤ index then items[index.toNat]?
  else if 0 ≤ items.length + index then items[(items.length + index).toNat]?
  else none

def resolveSegments (value : JsonValue ℚ) : List Segment → Option (JsonValue ℚ)
  | [] => some value
  | .name name :: segments => do
    let value ← value.member (String.ofList name)
    resolveSegments value segments
  | .index index :: segments => do
    let items ← value.asArray
    let value ← itemAt items index
    resolveSegments value segments

/-- Only the stored selection fields are visible at the root. -/
def resolvePath (segments : List Segment) (candidate : JsonValue ℚ) : Option (JsonValue ℚ) :=
  match segments with
  | .name name :: _ =>
    if String.ofList name ∈ rootSelectorMembers then resolveSegments candidate segments else none
  | _ => resolveSegments candidate segments

def Literal.toJson : Literal → JsonValue ℚ
  | .string value => .string (String.ofList value)
  | .number value => .number value
  | .boolean value => .bool value
  | .null => .null

def resolveValue (candidate : JsonValue ℚ) : ValueNode → Option (JsonValue ℚ)
  | .literal value => some value.toJson
  | .path segments => resolvePath segments candidate

def primitiveJsonEqual : JsonValue ℚ → JsonValue ℚ → Bool
  | .null, .null => true
  | .number left, .number right => left = right
  | .string left, .string right => left = right
  | .bool left, .bool right => left = right
  | _, _ => false

def valuesEqual : Option (JsonValue ℚ) → Option (JsonValue ℚ) → Bool
  | some left, some right => primitiveJsonEqual left right
  | _, _ => false

/-- An order comparison; strings are compared by their Unicode scalars. -/
def Comparison.holds {α : Type} [DecidableEq α] (less : α → α → Bool) (operator : Comparison)
    (left right : α) : Bool :=
  match operator with
  | .less => less left right
  | .lessEqual => less left right || left = right
  | .greater => less right left
  | .greaterEqual => less right left || left = right
  | .equal => left = right
  | .notEqual => left ≠ right

def compare (operator : Comparison) (left right : Option (JsonValue ℚ)) : Bool :=
  match operator with
  | .equal => valuesEqual left right
  | .notEqual => !valuesEqual left right
  | _ =>
    match left, right with
    | some (.number left), some (.number right) =>
      operator.holds (fun left right ↦ decide (left < right)) left right
    | some (.string left), some (.string right) =>
      operator.holds (fun left right ↦ decide (left.toList < right.toList)) left right
    | _, _ => false

def evaluate (candidate : JsonValue ℚ) : BooleanNode → Bool
  | .path segments => (resolvePath segments candidate).isSome
  | .comparison operator left right =>
    compare operator (resolveValue candidate left) (resolveValue candidate right)
  | .not operand => !evaluate candidate operand
  | .and left right => evaluate candidate left && evaluate candidate right
  | .or left right => evaluate candidate left || evaluate candidate right
  | .group operand => evaluate candidate operand

/-- The candidates that an expression selects, in their order. -/
def select (expression : BooleanNode) (candidates : List (JsonValue ℚ)) : List (JsonValue ℚ) :=
  candidates.filter (evaluate · expression)

end Evaluation

end Bdp.Selector
