-- Writing a line table: breakpoints as pairs of one-byte deltas. A delta that does not fit a
-- byte is spread over several pairs, the byte deltas first.
import UnitAtlas.Unit.LineTable

namespace UnitAtlas.LineDeltas

/-- The largest delta that one pair can hold. -/
def largest : Nat := 255

/-- Pairs that move on by `lines` lines, the first of them also by `bytes` bytes. -/
def lineSteps (bytes lines : Nat) : List (Nat × Nat) :=
  if largest < lines then (bytes, largest) :: lineSteps 0 (lines - largest)
  else [(bytes, lines)]
termination_by lines
decreasing_by simp only [largest] at *; omega

/-- Pairs that move on by `bytes` bytes and `lines` lines. -/
def steps (bytes lines : Nat) : List (Nat × Nat) :=
  if largest < bytes then (largest, 0) :: steps (bytes - largest) lines
  else lineSteps bytes lines
termination_by bytes
decreasing_by simp only [largest] at *; omega

/-- The table of the breakpoints that follow `last`. -/
def encode (last : Breakpoint) : List Breakpoint → Bytes
  | [] => []
  | b :: bs =>
    (steps (b.offset - last.offset) (b.line - last.line)).flatMap
        (fun p => [p.1.toUInt8, p.2.toUInt8])
      ++ encode b bs

end UnitAtlas.LineDeltas
