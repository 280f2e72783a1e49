-- Drafts: code whose operand numbers, offsets and jump targets are still open. A draft says
-- what to load, store and build by name; where jumps go is said by blocks, as the end of
-- an enclosing one. Names, constants and offsets are settled when the draft is assembled.
import UnitAtlas.Bytecode.Assembler
import UnitAtlas.Syntax.Node
import UnitAtlas.Text.Chain
import UnitAtlas.Unit.Basic

namespace UnitAtlas

/-! ## What can be wrong -/

/-- A part that there is no code without. -/
inductive NeededPart where
  | target | value | object | leftOperand | rightOperand | key | callee | body | definition
  | condition | iterable
  deriving Repr, DecidableEq

def NeededPart.word : NeededPart → String
  | .target => "target"
  | .value => "value"
  | .object => "object"
  | .leftOperand => "left operand"
  | .rightOperand => "right operand"
  | .key => "key"
  | .callee => "callee"
  | .body => "body"
  | .definition => "a definition"
  | .condition => "condition"
  | .iterable => "iterable"

/-- Why no code could be made of a tree. -/
inductive DraftError where
  | missingField (line : UInt32) (kind : Syntax.Kind) (field : Syntax.Field)
  | missingBody (line : UInt32) (name : String)
  | lacks (whole : String) (part : NeededPart)
  | assembly (unit : String) (e : AssemblyError)
  deriving Repr, DecidableEq

/-- The failure in words, for a source compiled under `filename`. -/
def DraftError.chain (filename : String) : DraftError → ErrorChain
  | .missingField line kind field =>
    ⟨s!"{filename}:{line}: `{kind.name}` has no `{field.word}`", []⟩
  | .missingBody line name => ⟨s!"{filename}:{line}: `{name}` has no body", []⟩
  | .lacks whole part => ⟨s!"{whole} without {part.word}", []⟩
  | .assembly unit e => ⟨s!"Failed to assemble `{unit}`", [e.message]⟩

/-! ## The shape of a nested unit -/

/-- Where code stands. It decides where its names live. -/
inductive Scope where
  | module | classBody | function
  deriving Repr, DecidableEq

/-- The declared parameters of a unit. -/
structure ParameterNames where
  positional : List String := []
  kwOnly : List String := []
  varArgs : Option String := none
  varKeywords : Option String := none
  deriving Repr, DecidableEq

namespace ParameterNames

/-- All names, in the order of the table of local variables. -/
def all (p : ParameterNames) : List String :=
  p.positional ++ p.kwOnly ++ p.varArgs.toList ++ p.varKeywords.toList

/-- The flags that tell which catch-all parameters there are. -/
def flags (p : ParameterNames) : UnitFlags :=
  let withVarArgs := if p.varArgs.isSome then UnitFlags.empty.insert .varArgs else .empty
  if p.varKeywords.isSome then withVarArgs.insert .varKeywords else withVarArgs

end ParameterNames

/-- What is known of a unit before its code: `consts` start its constant table. -/
structure UnitShape where
  name : String
  firstLine : UInt32
  scope : Scope
  parameters : ParameterNames := {}
  consts : List Literal := []
  deriving Repr, DecidableEq

/-! ## Drafts -/

/-- Code still open. -/
inductive Draft where
  /-- Nothing. -/
  | skip
  /-- One after the other. -/
  | seq (first second : Draft)
  /-- There is no code; assembling stops here. -/
  | fail (e : DraftError)
  /-- What follows stands at this source line. -/
  | line (n : UInt32)
  | plain (op : Opcode.Plain)
  | counted (op : Opcode.Counted) (n : Nat)
  | literal (l : Literal)
  /-- A name, wherever it lives. -/
  | access (what : Opcode.Access) (name : String)
  /-- A name of the name table. -/
  | named (op : Opcode.Named) (name : String)
  /-- From here on the name is not a local variable. -/
  | declareGlobal (name : String)
  /-- Code with an end that jumps inside it can go to. -/
  | block (body : Draft)
  /-- A jump to the end of an enclosing block, 0 being the innermost. -/
  | jump (op : Opcode.Jump) (depth : Nat)
  /-- Code with a start that jumps inside it can go back to. -/
  | loop (body : Draft)
  /-- A jump back to the start of the innermost loop. -/
  | again
  /-- The same for a `continue` statement; outside of loops it is nothing. -/
  | continueLoop
  /-- Loads a nested unit made of the shape and the code. -/
  | unit (shape : UnitShape) (body : Draft)
  deriving Repr, DecidableEq

namespace Draft

instance : Append Draft := ⟨Draft.seq⟩

/-- All drafts in order. -/
def all (drafts : List Draft) : Draft := drafts.foldr .seq .skip

/-- A draft made of a part; when the part is missing, the draft fails with `e`. -/
def need {α : Type} (part : Option α) (e : DraftError) (use : α → Draft) : Draft :=
  match part with
  | some a => use a
  | none => .fail e

def load (name : String) : Draft := .access .load name

def store (name : String) : Draft := .access .store name

end Draft

end UnitAtlas
