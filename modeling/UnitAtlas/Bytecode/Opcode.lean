-- The instruction set. An opcode below 90 is a byte on its own; the others are followed by an
-- operand of two bytes. What the operand means depends on the opcode, so each meaning has
-- a type of its own.

namespace UnitAtlas.Opcode

/-- The first opcode with an operand. -/
def firstWithOperand : UInt8 := 90

def hasOperand (op : UInt8) : Bool := firstWithOperand ≤ op

/-- The instruction whose operand is the high half of the next one's. -/
def extendedOperand : UInt8 := 145

/-- Instructions without an operand. -/
inductive Plain where
  | popTop | dupTop
  | unaryPositive | unaryNegative | unaryNot | unaryInvert
  | binaryPower | binaryMultiply | binaryDivide | binaryModulo | binaryAdd | binarySubtract
  | binarySubscript | binaryFloorDivide
  | storeMap | inplaceAdd | storeSubscript | deleteSubscript
  | binaryLeftShift | binaryRightShift | binaryAnd | binaryXor | binaryOr
  | getIterator | printItem | printNewline
  | breakLoop | withCleanup | loadLocals | returnValue | importStar | execStatement | yieldValue
  | popBlock | endFinally | buildClass
  deriving Repr, DecidableEq

def Plain.byte : Plain → UInt8
  | .popTop => 1
  | .dupTop => 4
  | .unaryPositive => 10
  | .unaryNegative => 11
  | .unaryNot => 12
  | .unaryInvert => 15
  | .binaryPower => 19
  | .binaryMultiply => 20
  | .binaryDivide => 21
  | .binaryModulo => 22
  | .binaryAdd => 23
  | .binarySubtract => 24
  | .binarySubscript => 25
  | .binaryFloorDivide => 26
  | .storeMap => 54
  | .inplaceAdd => 55
  | .storeSubscript => 60
  | .deleteSubscript => 61
  | .binaryLeftShift => 62
  | .binaryRightShift => 63
  | .binaryAnd => 64
  | .binaryXor => 65
  | .binaryOr => 66
  | .getIterator => 68
  | .printItem => 71
  | .printNewline => 72
  | .breakLoop => 80
  | .withCleanup => 81
  | .loadLocals => 82
  | .returnValue => 83
  | .importStar => 84
  | .execStatement => 85
  | .yieldValue => 86
  | .popBlock => 87
  | .endFinally => 88
  | .buildClass => 89

/-- Instructions whose operand is a plain number: a count, or the code of a comparison. -/
inductive Counted where
  | unpackSequence | buildTuple | buildList | buildSet | buildMap | compare
  | raiseVarArgs | callFunction | makeFunction
  deriving Repr, DecidableEq

def Counted.byte : Counted → UInt8
  | .unpackSequence => 92
  | .buildTuple => 102
  | .buildList => 103
  | .buildSet => 104
  | .buildMap => 105
  | .compare => 107
  | .raiseVarArgs => 130
  | .callFunction => 131
  | .makeFunction => 132

/-- Instructions whose operand is an index into the name table. -/
inductive Named where
  | storeName | deleteName | loadName
  | storeGlobal | deleteGlobal | loadGlobal
  | storeAttribute | deleteAttribute | loadAttribute
  | importName | importFrom
  deriving Repr, DecidableEq

def Named.byte : Named → UInt8
  | .storeName => 90
  | .deleteName => 91
  | .storeAttribute => 95
  | .deleteAttribute => 96
  | .storeGlobal => 97
  | .deleteGlobal => 98
  | .loadName => 101
  | .loadAttribute => 106
  | .importName => 108
  | .importFrom => 109
  | .loadGlobal => 116

/-- What is done with a name. Which instruction does it depends on where the name lives. -/
inductive Access where
  | load | store | delete
  deriving Repr, DecidableEq

/-- For a local variable: the operand is an index into the table of local variables. -/
def Access.localByte : Access → UInt8
  | .load => 124
  | .store => 125
  | .delete => 126

/-- For a global name seen from a function. -/
def Access.globally : Access → Named
  | .load => .loadGlobal
  | .store => .storeGlobal
  | .delete => .deleteGlobal

/-- For a name of a module or a class body. -/
def Access.byName : Access → Named
  | .load => .loadName
  | .store => .storeName
  | .delete => .deleteName

/-- The instruction whose operand is an index into the constant table. -/
def loadConst : UInt8 := 100

/-- Instructions whose operand is a place in the code. -/
inductive Jump where
  | forIterator | forward | ifFalseOrPop | ifTrueOrPop | absolute | popIfFalse | popIfTrue
  | continueLoop | setupLoop | setupExcept | setupFinally | setupWith
  deriving Repr, DecidableEq

def Jump.byte : Jump → UInt8
  | .forIterator => 93
  | .forward => 110
  | .ifFalseOrPop => 111
  | .ifTrueOrPop => 112
  | .absolute => 113
  | .popIfFalse => 114
  | .popIfTrue => 115
  | .continueLoop => 119
  | .setupLoop => 120
  | .setupExcept => 121
  | .setupFinally => 122
  | .setupWith => 143

/-- Whether the operand counts from the end of the instruction; else it counts from 0. -/
def isRelative (op : UInt8) : Bool := [110, 93, 120, 121, 122, 143].contains op

end UnitAtlas.Opcode
