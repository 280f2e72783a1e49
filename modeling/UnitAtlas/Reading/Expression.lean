-- Expressions: the code that leaves the value of a node on the stack.
import UnitAtlas.Reading.Literal
import UnitAtlas.Reading.Parameters

namespace UnitAtlas.Reading

open Syntax

/-! ## Operators -/

/-- The sign of an operator is the name of the kind of its node. -/
def operatorSign (p : Place Reading) : Option String := (p.field? .operator).map (·.kind.name)

def binaryOperator : String → Opcode.Plain
  | "-" => .binarySubtract
  | "*" => .binaryMultiply
  | "@" => .binaryMultiply
  | "/" => .binaryDivide
  | "//" => .binaryFloorDivide
  | "%" => .binaryModulo
  | "**" => .binaryPower
  | "<<" => .binaryLeftShift
  | ">>" => .binaryRightShift
  | "&" => .binaryAnd
  | "^" => .binaryXor
  | "|" => .binaryOr
  | _ => .binaryAdd

def unaryOperator : Option String → Opcode.Plain
  | some "+" => .unaryPositive
  | some "~" => .unaryInvert
  | _ => .unaryNegative

/-- `and` and `or` leave their left operand when it decides. -/
def shortCircuit (sign : Option String) : Opcode.Jump :=
  if sign = some "or" then .ifTrueOrPop else .ifFalseOrPop

/-! ## Attributes -/

/-- The object of an attribute, then the instruction that does `op` to the attribute. -/
def attributeOf (op : Opcode.Named) (p : Place Reading) : Draft :=
  Draft.need (p.field? .object) (.lacks "attribute" .object) fun object =>
    object.roles.value ++ p.withText .attributeName fun name => .named op name

/-! ## Compound expressions -/

/-- The operands, then an instruction that makes one value of them. -/
def collection (op : Opcode.Counted) (p : Place Reading) : Draft :=
  p.operands ++ .counted op p.named.length

def booleanOperator (p : Place Reading) : Draft :=
  Draft.need (p.field? .left) (.lacks "boolean operator" .leftOperand) fun left =>
  Draft.need (p.field? .right) (.lacks "boolean operator" .rightOperand) fun right =>
    left.roles.value ++ .block (.jump (shortCircuit (operatorSign p)) 0 ++ right.roles.value)

/-- The code of a comparison in the table of comparisons: equality. -/
def equalityComparison : Nat := 2

/-- Every operand after the first is compared. -/
def comparison (p : Place Reading) : Draft :=
  match p.named with
  | [] => .skip
  | first :: rest =>
    first.roles.value ++
      Draft.all (rest.map fun r => r.roles.value ++ .counted .compare equalityComparison)

/-- An entry of a dictionary: the value before the key. -/
def dictionaryEntry (entry : Reading) : Draft :=
  if entry.kind = .pair then
    Draft.need (entry.place.field? .key) (.lacks "pair" .key) fun key =>
    Draft.need (entry.place.field? .value) (.lacks "pair" .value) fun value =>
      value.roles.value ++ key.roles.value ++ .plain .storeMap
  else entry.roles.value

def dictionary (p : Place Reading) : Draft :=
  .counted .buildMap p.named.length ++ Draft.all (p.named.map dictionaryEntry)

/-- `body if condition else alternative`. -/
def conditional (p : Place Reading) : Draft :=
  match p.named with
  | [body, condition, alternative] =>
    condition.roles.value ++
      .block (.block (.jump .popIfFalse 0 ++ body.roles.value ++ .jump .forward 1)
        ++ alternative.roles.value)
  | _ => p.operands

/-! ## Calls -/

/-- An argument. One given by keyword has its name before it. -/
def argument (r : Reading) : Draft :=
  if r.kind = .keywordArgument then
    (r.place.withText .name fun name => .literal (.str name)) ++ r.roles.value
  else r.roles.value

/-- The operand of a call: the keyword arguments count in the second byte. -/
def argumentCount (arguments : List Reading) : Nat :=
  let keywords := arguments.countP (·.kind == .keywordArgument)
  let positional := arguments.countP (·.kind != .keywordArgument)
  (keywords <<< 8) ||| positional

/-- The arguments of a call, and the instruction that calls. -/
def callWith : Option Reading → Draft
  | none => .counted .callFunction 0
  | some r =>
    if r.kind = .generatorExpression then r.roles.value ++ .counted .callFunction 1
    else
      Draft.all (r.place.named.map argument)
        ++ .counted .callFunction (argumentCount r.place.named)

def call (p : Place Reading) : Draft :=
  Draft.need (p.field? .function) (.lacks "call" .callee) fun function =>
    function.roles.value ++ callWith (p.field? .arguments)

/-! ## Lambdas -/

/-- The name of every lambda's unit. -/
def lambdaName : String := "<lambda>"

/-- The unit of a lambda with `body` as its value. -/
def lambdaUnit (line : UInt32) (names : ParameterNames) (body : Reading) : Draft :=
  .unit { name := lambdaName, firstLine := line, scope := .function, parameters := names }
    (body.roles.value ++ .plain .returnValue)

def lambda (p : Place Reading) : Draft :=
  let declared := Declaration.ofList (p.field? .parameters)
  declared.defaultValues ++
    Draft.need (p.field? .body) (.lacks "lambda" .body) fun body =>
      lambdaUnit p.line declared.names body ++ .counted .makeFunction declared.defaults.length

/-! ## All kinds -/

/-- The value of a node. Where no rule knows the kind, the operands are left as they are. -/
def value (p : Place Reading) : Draft :=
  match p.kind with
  | .identifier => .load p.text
  | .integer => .literal (integerLiteral p.text)
  | .float => .literal (floatLiteral p.text)
  | .string | .concatenatedString => .literal (.str p.text)
  | .trueLiteral => .literal (.bool true)
  | .falseLiteral => .literal (.bool false)
  | .noneLiteral => .literal .none
  | .ellipsis => .load "Ellipsis"
  | .lambda => lambda p
  | .call => call p
  | .attributeAccess => attributeOf .loadAttribute p
  | .subscript => p.operands ++ .plain .binarySubscript
  | .binaryOperator => p.operands ++ .plain (binaryOperator ((operatorSign p).getD "+"))
  | .booleanOperator => booleanOperator p
  | .comparisonOperator => comparison p
  | .notOperator => p.operands ++ .plain .unaryNot
  | .unaryOperator => p.operands ++ .plain (unaryOperator (operatorSign p))
  | .tuple | .expressionList => collection .buildTuple p
  | .list => collection .buildList p
  | .set => collection .buildSet p
  | .dictionary => dictionary p
  | .conditionalExpression => conditional p
  | .yield => firstValue p ++ .plain .yieldValue
  | .keywordArgument => optional (p.field? .value) (·.roles.value)
  | _ => p.operands

end UnitAtlas.Reading
