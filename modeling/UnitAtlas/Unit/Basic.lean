-- Code units: what a compiled module, function or class body is made of. A unit holds its
-- instructions, its line table and its constants; units nested in it are among the constants.

namespace UnitAtlas

abbrev Bytes := List UInt8

/-! ## Constants -/

/-- A constant that is not a unit. A float is kept as the bits of its double. -/
inductive Literal where
  | none
  | bool (b : Bool)
  | int (n : Int)
  | float (bits : UInt64)
  | str (s : String)
  deriving Repr, DecidableEq

/-- An entry of a constant table: a literal, or a nested unit of type `U`. -/
inductive Constant (U : Type) where
  | literal (l : Literal)
  | unit (u : U)
  deriving Repr

/-! ## Flags -/

/-- The flag bits of a unit. Two of them say which catch-all parameters it takes. -/
structure UnitFlags where
  bits : UInt32
  deriving Repr, DecidableEq

namespace UnitFlags

/-- The unit takes `*name`. -/
def varArgs : UnitFlags := ⟨0x04⟩

/-- The unit takes `**name`. -/
def varKeywords : UnitFlags := ⟨0x08⟩

def empty : UnitFlags := ⟨0⟩

/-- Whether every bit of `other` is set. -/
def contains (flags other : UnitFlags) : Bool := flags.bits &&& other.bits == other.bits

def insert (flags other : UnitFlags) : UnitFlags := ⟨flags.bits ||| other.bits⟩

end UnitFlags

/-! ## Units -/

/-- What a unit says of itself, apart from its constants. `varNames` starts with the
positional parameters, then the keyword-only ones, then the catch-all ones by the flags. -/
structure UnitInfo where
  name : String
  filename : String
  firstLine : UInt32
  code : Bytes
  lineTable : Bytes
  names : List String
  varNames : List String
  argCount : Nat
  kwOnlyCount : Nat
  flags : UnitFlags
  deriving Repr, DecidableEq

/-- A unit with its constants, the nested units among them. -/
structure CodeUnit where
  info : UnitInfo
  consts : List (Constant CodeUnit)

namespace Constant

def unit? {U : Type} : Constant U → Option U
  | .literal _ => Option.none
  | .unit u => some u

end Constant

namespace CodeUnit

/-- The units directly inside, in the order of the constant table. -/
def nested (u : CodeUnit) : List CodeUnit := u.consts.filterMap Constant.unit?

end CodeUnit

end UnitAtlas
