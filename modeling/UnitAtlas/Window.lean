-- The window of a nested unit: the bytes of its parent's instructions that build it, found
-- by line numbers, without the store that binds the finished unit to its name.
import UnitAtlas.Unit.LineTable

namespace UnitAtlas

/-- Bytes from `start` up to, not including, `stop`. -/
structure ByteRange where
  start : Nat
  stop : Nat
  deriving Repr, DecidableEq

namespace ByteRange

/-- The bytes in the range; none when it is reversed or reaches past the end. -/
def slice? (range : ByteRange) (code : Bytes) : Option Bytes :=
  if range.start ≤ range.stop ∧ range.stop ≤ code.length then
    some ((code.take range.stop).drop range.start)
  else none

end ByteRange

namespace Window

/-- The length of the store that binds a finished unit to its name. -/
def defaultGlue : Nat := 3

/-- The window found among `breaks` for lines `child`: it starts at the first breakpoint
that reaches the first line (else at 0) and ends at the next one that reaches the last line
(else at the last breakpoint). Both ends stay within `len` bytes, and `glue` bytes are cut
off the end, never past the start. -/
def locate (glue len : Nat) (breaks : List Breakpoint) (child : LineSpan) : ByteRange :=
  let reached := breaks.dropWhile (·.line < child.first)
  let start := min ((reached.head?.map (·.offset)).getD 0) len
  let closing := (reached.drop 1).find? (child.last ≤ ·.line)
  let lastOffset := (breaks.getLast?.map (·.offset)).getD 0
  let stop := min ((closing.map (·.offset)).getD lastOffset) len
  ⟨start, max (stop - glue) start⟩

/-- The window of `child` in the instructions of `parent`. -/
def extract (glue : Nat) (parent child : CodeUnit) : Except DecodeError ByteRange := do
  let span ← LineTable.resolveSpan child
  let breaks ← LineTable.scan parent
  return locate glue parent.info.code.length breaks span

end Window

end UnitAtlas
