-- Line tables: flat pairs (byte delta, line delta) that say where in the instructions a new
-- source line begins. Reading a table sums the deltas from offset 0 and the first line.
import UnitAtlas.Unit.Basic

namespace UnitAtlas

/-- What can be wrong with a unit's own data. -/
inductive DecodeError where
  | oddLineTable (unit : String) (len : Nat)
  | lineOverflow (unit : String) (firstLine : Nat)
  | parameters (unit : String) (needed available : Nat)
  deriving Repr, DecidableEq

def DecodeError.message : DecodeError → String
  | .oddLineTable unit len => s!"line table of `{unit}` has an odd number of entries ({len})"
  | .lineOverflow unit firstLine => s!"line numbers of `{unit}` overflow past line {firstLine}"
  | .parameters unit needed available =>
    s!"parameter metadata of `{unit}` needs {needed} variable names "
      ++ s!"but only {available} are present"

/-- An offset in the instructions and the source line reached there. -/
structure Breakpoint where
  offset : Nat
  line : Nat
  deriving Repr, DecidableEq

/-- The first and the last source line of a unit. -/
structure LineSpan where
  first : Nat
  last : Nat
  deriving Repr, DecidableEq

namespace LineTable

/-- Lines are below this bound. -/
def lineBound : Nat := 0x100000000

/-- Neighbours taken two by two; a last entry without a neighbour is dropped. -/
def pairUp : Bytes → List (UInt8 × UInt8)
  | b :: l :: rest => (b, l) :: pairUp rest
  | _ => []

/-- The delta pairs of a unit, refused when an entry is left over. -/
def pairs (u : CodeUnit) : Except DecodeError (List (UInt8 × UInt8)) :=
  if u.info.lineTable.length % 2 = 0 then .ok (pairUp u.info.lineTable)
  else .error (.oddLineTable u.info.name u.info.lineTable.length)

/-- `line` moved on by `delta`, refused when it leaves the range of lines. -/
def advance (u : CodeUnit) (line : Nat) (delta : UInt8) : Except DecodeError Nat :=
  if line + delta.toNat < lineBound then .ok (line + delta.toNat)
  else .error (.lineOverflow u.info.name u.info.firstLine.toNat)

/-! ## The span of a unit -/

/-- The first line of the unit, and the line after all its deltas. -/
def resolveSpan (u : CodeUnit) : Except DecodeError LineSpan := do
  let ps ← pairs u
  let last ← ps.foldlM (fun line p => advance u line p.2) u.info.firstLine.toNat
  return ⟨u.info.firstLine.toNat, last⟩

/-! ## The breakpoints of a unit -/

/-- The breakpoint given, and one more after each delta pair. -/
def trace (u : CodeUnit) (start : Breakpoint) :
    List (UInt8 × UInt8) → Except DecodeError (List Breakpoint)
  | [] => return [start]
  | p :: ps => do
    let line ← advance u start.line p.2
    let later ← trace u ⟨start.offset + p.1.toNat, line⟩ ps
    return start :: later

/-- All breakpoints of a unit. The first is offset 0 at the first line. -/
def scan (u : CodeUnit) : Except DecodeError (List Breakpoint) := do
  let ps ← pairs u
  trace u ⟨0, u.info.firstLine.toNat⟩ ps

end LineTable

end UnitAtlas
