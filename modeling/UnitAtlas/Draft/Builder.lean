-- The builder of one unit: the code written so far, and the tables that its operands point
-- into. Tables only grow at their ends, so an index once given stays good.
import UnitAtlas.Draft.Basic
import UnitAtlas.Number.Double

namespace UnitAtlas

/-- Whether two literals share an entry of the constant table. Floats do when they are equal
as numbers. -/
def Literal.same : Literal → Literal → Bool
  | .float a, .float b => Double.same a b
  | a, b => a == b

/-- A unit in the making. `loops` holds the starts of the loops around the current place, and
`blocks` the jumps out of each block around it, both from the innermost on. -/
structure Builder where
  scope : Scope
  assembler : Assembler
  consts : List (Constant CodeUnit)
  names : List String
  varNames : List String
  globals : List String
  loops : List Nat
  blocks : List (List JumpSlot)

namespace Builder

/-- A unit with no code yet. Its parameters are its first local variables. -/
def start (shape : UnitShape) : Builder where
  scope := shape.scope
  assembler := Assembler.start shape.firstLine
  consts := shape.consts.map .literal
  names := []
  varNames := shape.parameters.all
  globals := []
  loops := []
  blocks := []

/-! ## Tables -/

/-- The index of a name in a table, entered at the end if it is new. -/
def intern (table : List String) (name : String) : Nat × List String :=
  match table.idxOf? name with
  | some i => (i, table)
  | none => (table.length, table ++ [name])

/-- Whether a constant is a literal that `l` can share an entry with. -/
def isSame (l : Literal) : Constant CodeUnit → Bool
  | .literal m => m.same l
  | .unit _ => false

/-- The index of a literal in the constant table, entered at the end if it is new. -/
def internLiteral (consts : List (Constant CodeUnit)) (l : Literal) :
    Nat × List (Constant CodeUnit) :=
  match consts.findIdx? (isSame l) with
  | some i => (i, consts)
  | none => (consts.length, consts ++ [.literal l])

/-! ## Writing -/

variable {ε : Type}

def emit (op : UInt8) (b : Builder) : Except (Fault ε) Builder := do
  return { b with assembler := ← b.assembler.emit op }

def emitArg (op : UInt8) (operand : Nat) (b : Builder) : Except (Fault ε) Builder := do
  return { b with assembler := ← b.assembler.emitArg op (UInt32.ofNat operand) }

def setLine (n : UInt32) (b : Builder) : Builder :=
  { b with assembler := b.assembler.setLine n }

def loadLiteral (l : Literal) (b : Builder) : Except (Fault ε) Builder :=
  let (i, consts) := internLiteral b.consts l
  { b with consts := consts }.emitArg Opcode.loadConst i

/-- Loads a nested unit from an entry of its own. -/
def loadUnit (u : CodeUnit) (b : Builder) : Except (Fault ε) Builder :=
  { b with consts := b.consts ++ [Constant.unit u] }.emitArg Opcode.loadConst b.consts.length

def withName (op : Opcode.Named) (name : String) (b : Builder) : Except (Fault ε) Builder :=
  let (i, names) := intern b.names name
  { b with names := names }.emitArg op.byte i

def withLocal (what : Opcode.Access) (name : String) (b : Builder) :
    Except (Fault ε) Builder :=
  let (i, varNames) := intern b.varNames name
  { b with varNames := varNames }.emitArg what.localByte i

/-- Whether a name is a local variable here: in a function all names are that are stored
and not declared global; a name that is only loaded must be known already. -/
def isLocal (what : Opcode.Access) (name : String) (b : Builder) : Bool :=
  b.scope == .function && !b.globals.contains name
    && (what != .load || b.varNames.contains name)

/-- Loads, stores or deletes a name where it lives. -/
def access (what : Opcode.Access) (name : String) (b : Builder) : Except (Fault ε) Builder :=
  if b.isLocal what name then b.withLocal what name
  else if b.scope = .function then b.withName what.globally name
  else b.withName what.byName name

/-! ## Blocks and loops -/

/-- Adds a jump to the block at `depth`; where there is no such block, to none. -/
def addExit (slot : JumpSlot) : Nat → List (List JumpSlot) → List (List JumpSlot)
  | _, [] => []
  | 0, slots :: outer => (slots ++ [slot]) :: outer
  | depth + 1, slots :: outer => slots :: addExit slot depth outer

/-- Writes a jump out of the block at `depth`. -/
def jumpOut (op : Opcode.Jump) (depth : Nat) (b : Builder) : Except (Fault ε) Builder := do
  let (slot, assembler) ← b.assembler.emitJump op.byte
  return { b with assembler := assembler, blocks := addExit slot depth b.blocks }

def openBlock (b : Builder) : Builder := { b with blocks := [] :: b.blocks }

/-- Ends the innermost block: all jumps out of it go to what is written next. -/
def closeBlock (b : Builder) : Builder :=
  match b.blocks with
  | [] => b
  | slots :: outer =>
    { b with assembler := slots.foldl (fun a slot => a.patch slot) b.assembler, blocks := outer }

def openLoop (b : Builder) : Builder := { b with loops := b.assembler.offset :: b.loops }

def closeLoop (b : Builder) : Builder := { b with loops := b.loops.tail }

/-- Jumps back to the start of the innermost loop. -/
def jumpBack (b : Builder) : Except (Fault ε) Builder :=
  match b.loops with
  | [] => return b
  | start :: _ => do
    return { b with assembler := ← b.assembler.emitJumpTo Opcode.Jump.absolute.byte start }

/-- Continues the innermost loop. -/
def continueInner (b : Builder) : Except (Fault ε) Builder :=
  match b.loops with
  | [] => return b
  | start :: _ => b.emitArg Opcode.Jump.continueLoop.byte start

/-! ## The finished unit -/

/-- The unit of a shape with the code and the tables of the builder. -/
def finish (filename : String) (shape : UnitShape) (b : Builder) :
    Except DraftError CodeUnit := do
  let (code, lineTable) ← b.assembler.finish.mapError (.assembly shape.name)
  let info : UnitInfo := {
    name := shape.name
    filename := filename
    firstLine := shape.firstLine
    code := code
    lineTable := lineTable
    names := b.names
    varNames := b.varNames
    argCount := shape.parameters.positional.length
    kwOnlyCount := shape.parameters.kwOnly.length
    flags := shape.parameters.flags }
  return ⟨info, b.consts⟩

end Builder

end UnitAtlas
