-- The declared parameters of a unit, as they are shown after its name.
import UnitAtlas.Entity.Path
import UnitAtlas.Fault
import UnitAtlas.Unit.LineTable

namespace UnitAtlas.Parameters

/-- Counts are machine words of this many values. -/
def countBound : Nat := 0x10000000000000000

/-- The number of names that the counts and flags of a unit ask for. -/
def needed (info : UnitInfo) : Nat :=
  info.argCount + info.kwOnlyCount + (info.flags.contains .varArgs).toNat
    + (info.flags.contains .varKeywords).toNat

/-- The parts between the parentheses, when there are names enough. -/
def parts (info : UnitInfo) : List String :=
  let positional := info.varNames.take info.argCount
  let afterPositional := info.varNames.drop info.argCount
  let kwOnly := afterPositional.take info.kwOnlyCount
  let catchAll := afterPositional.drop info.kwOnlyCount
  let hasVarArgs := info.flags.contains .varArgs
  let star :=
    if hasVarArgs then catchAll.take 1 |>.map ("*" ++ ·)
    else if kwOnly.isEmpty then [] else ["*"]
  let doubleStar :=
    if info.flags.contains .varKeywords then
      (catchAll.drop hasVarArgs.toNat).take 1 |>.map ("**" ++ ·)
    else []
  positional ++ star ++ kwOnly ++ doubleStar

/-- `(a, b, *args, k, **kwargs)` for a function or a method, and nothing for other kinds.
Counts that need more names than there are make an error, and a panic when their sum is no
machine word. -/
def display (kind : UnitKind) (u : CodeUnit) : Except (Fault DecodeError) String :=
  if kind.takesArguments then
    if needed u.info ≤ u.info.varNames.length then
      .ok ("(" ++ ", ".intercalate (parts u.info) ++ ")")
    else if countBound ≤ needed u.info then .error (.panic "attempt to add with overflow")
    else .error (.error (.parameters u.info.name (needed u.info) u.info.varNames.length))
  else .ok ""

end UnitAtlas.Parameters
