-- The assembler: instructions are written one after the other, each at the source line that
-- is current then. Jumps may be written before their target is known and patched later. At
-- the end the instructions become bytes, and their lines become a line table.
import UnitAtlas.Bytecode.LineDeltas
import UnitAtlas.Bytecode.Opcode
import UnitAtlas.Fault

namespace UnitAtlas

/-- An instruction as it was written: opcode, operand if it has one, and source line. -/
structure Emission where
  op : UInt8
  operand : Option UInt32
  line : UInt32
  deriving Repr, DecidableEq

namespace Emission

/-- The two low bytes of a number, the low one first. -/
def half (n : UInt32) : Bytes := [n.toUInt8, (n >>> 8).toUInt8]

/-- The bytes of the instruction. An operand of more than two bytes is written in halves, the
high one before the instruction. -/
def bytes (e : Emission) : Bytes :=
  match e.operand with
  | none => [e.op]
  | some n =>
    if 0xFFFF < n then Opcode.extendedOperand :: half (n >>> 16) ++ e.op :: half n
    else e.op :: half n

/-- The number of bytes of the instruction. -/
def size (e : Emission) : Nat :=
  match e.operand with
  | none => 1
  | some n => if 0xFFFF < n then 6 else 3

end Emission

/-- Why assembled code cannot be handed out. -/
inductive AssemblyError where
  | jumpTooFar
  deriving Repr, DecidableEq

def AssemblyError.message : AssemblyError → String
  | .jumpTooFar => "jump target does not fit in a 16-bit argument"

/-- A jump whose target may still be set: its number among the instructions written, and the
offset it stands at. -/
structure JumpSlot where
  index : Nat
  op : UInt8
  offset : Nat
  deriving Repr, DecidableEq

/-- The code written so far. `offset` is its length in bytes. -/
structure Assembler where
  firstLine : UInt32
  line : UInt32
  emitted : Array Emission
  offset : Nat
  overflowed : Bool

namespace Assembler

/-- Nothing written yet, at the first line. -/
def start (firstLine : UInt32) : Assembler := ⟨firstLine, firstLine, #[], 0, false⟩

/-- The line of what is written from now on. -/
def setLine (line : UInt32) (a : Assembler) : Assembler := { a with line := line }

/-- Writes an instruction at the current line. -/
def write (op : UInt8) (operand : Option UInt32) (a : Assembler) : Assembler :=
  let e : Emission := ⟨op, operand, a.line⟩
  { a with emitted := a.emitted.push e, offset := a.offset + e.size }

/-- Writes an instruction without an operand. -/
def emit {ε : Type} (op : UInt8) (a : Assembler) : Except (Fault ε) Assembler :=
  if Opcode.hasOperand op then .error (.panic "assertion failed: !has_arg(op)")
  else .ok (a.write op none)

/-- Writes an instruction with its operand. -/
def emitArg {ε : Type} (op : UInt8) (operand : UInt32) (a : Assembler) :
    Except (Fault ε) Assembler :=
  if Opcode.hasOperand op then .ok (a.write op (some operand))
  else .error (.panic "assertion failed: has_arg(op)")

/-- The operand of a jump that stands at `offset` and goes to `target`. -/
def jumpOperand (op : UInt8) (offset target : Nat) : Nat :=
  if Opcode.isRelative op then target - (offset + 3) else target

/-- Sets the target of a jump. A target out of reach leaves the jump as it was and spoils
the code. -/
def patchTo (slot : JumpSlot) (target : Nat) (a : Assembler) : Assembler :=
  let operand := jumpOperand slot.op slot.offset target
  if operand < 0x10000 then
    let set := fun e : Emission => { e with operand := some (UInt32.ofNat operand) }
    { a with emitted := a.emitted.modify slot.index set }
  else { a with overflowed := true }

/-- Lets a jump go to what is written next. -/
def patch (slot : JumpSlot) (a : Assembler) : Assembler := a.patchTo slot a.offset

/-- Writes a jump whose target is not known yet. -/
def emitJump {ε : Type} (op : UInt8) (a : Assembler) :
    Except (Fault ε) (JumpSlot × Assembler) := do
  let written ← a.emitArg op 0
  return (⟨a.emitted.size, op, a.offset⟩, written)

/-- Writes a jump to a place already passed. -/
def emitJumpTo {ε : Type} (op : UInt8) (target : Nat) (a : Assembler) :
    Except (Fault ε) Assembler := do
  let (slot, written) ← a.emitJump op
  return written.patchTo slot target

/-! ## The finished code -/

/-- The breakpoints among instructions written from `offset` on: one for each instruction at
a line above `top`, the largest line before it. -/
def risesFrom (top offset : Nat) : List Emission → List Breakpoint
  | [] => []
  | e :: es =>
    if top < e.line.toNat then
      ⟨offset, e.line.toNat⟩ :: risesFrom e.line.toNat (offset + e.size) es
    else risesFrom top (offset + e.size) es

/-- Where the code reaches a line above all lines before it. -/
def rises (a : Assembler) : List Breakpoint := risesFrom a.firstLine.toNat 0 a.emitted.toList

def code (a : Assembler) : Bytes := a.emitted.toList.flatMap Emission.bytes

def lineTable (a : Assembler) : Bytes := LineDeltas.encode ⟨0, a.firstLine.toNat⟩ a.rises

/-- The instructions and the line table, unless a jump target was out of reach. -/
def finish (a : Assembler) : Except AssemblyError (Bytes × Bytes) :=
  if a.overflowed then .error .jumpTooFar else .ok (a.code, a.lineTable)

/-! ## Histories -/

/-- One thing to do with an assembler. A patch names a jump by its number among the jumps
written with a target still open. -/
inductive Step where
  | line (n : UInt32)
  | emit (op : UInt8)
  | arg (op : UInt8) (operand : UInt32)
  | jump (op : UInt8)
  | jumpTo (op : UInt8) (target : Nat)
  | patch (slot : Nat)
  deriving Repr, DecidableEq

/-- An assembler together with the jumps that can be patched. -/
structure Desk where
  assembler : Assembler
  slots : Array JumpSlot

def Desk.start (firstLine : UInt32) : Desk := ⟨Assembler.start firstLine, #[]⟩

/-- Does one step. A patch of a jump that was never written changes nothing. -/
def Desk.step {ε : Type} (d : Desk) : Step → Except (Fault ε) Desk
  | .line n => return { d with assembler := d.assembler.setLine n }
  | .emit op => return { d with assembler := ← d.assembler.emit op }
  | .arg op operand => return { d with assembler := ← d.assembler.emitArg op operand }
  | .jump op => do
    let (slot, a) ← d.assembler.emitJump op
    return ⟨a, d.slots.push slot⟩
  | .jumpTo op target => return { d with assembler := ← d.assembler.emitJumpTo op target }
  | .patch i =>
    match d.slots[i]? with
    | some slot => return { d with assembler := d.assembler.patch slot }
    | none => return d

/-- Does all steps in order. -/
def Desk.run {ε : Type} (d : Desk) (steps : List Step) : Except (Fault ε) Desk :=
  steps.foldlM Desk.step d

end Assembler

end UnitAtlas
