-- The input of a session, line by line. A line is read as a whole, and only then it shows
-- whether it is text.
import UnitAtlas.Text.Blank
import UnitAtlas.Text.Chain
import UnitAtlas.Text.Lines
import UnitAtlas.Text.Utf8
import UnitAtlas.Unit.Basic

namespace UnitAtlas.Input

/-- A line that is not UTF-8. -/
def notText : ErrorChain :=
  ⟨"Failed to read request line", ["stream did not contain valid UTF-8"]⟩

/-- The text of a line without the blanks around it. -/
def text (raw : Bytes) : Except ErrorChain String :=
  match Utf8.strict? raw with
  | some s => .ok (Blank.trim s)
  | none => .error notText

/-- The first line of what is left of an input, none at its end, and the lines behind it. -/
def next : List Bytes → Except ErrorChain (Option String) × List Bytes
  | [] => (.ok none, [])
  | raw :: rest => ((text raw).map some, rest)

end UnitAtlas.Input
