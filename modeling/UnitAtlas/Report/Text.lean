-- Reports as text: the entities of a file under headings, one for each first line, the lowest
-- line first.
import UnitAtlas.Report.Basic

namespace UnitAtlas.FileReport

/-! ## Groups -/

/-- Groups of entities under their lines, the lowest first, with one more entity at the end of
the group of the line that it starts at. -/
def place (e : Entity) : List (Nat × List Entity) → List (Nat × List Entity)
  | [] => [(e.lines.first, [e])]
  | (line, group) :: later =>
    if e.lines.first < line then (e.lines.first, [e]) :: (line, group) :: later
    else if e.lines.first = line then (line, group ++ [e]) :: later
    else (line, group) :: place e later

/-- Entities grouped by the lines that they start at. -/
def grouped (entities : List Entity) : List (Nat × List Entity) :=
  entities.foldl (fun groups e => place e groups) []

/-! ## Text -/

/-- The row of an entity. -/
def row (e : Entity) : String :=
  s!"    {e.displayText}  [{e.identity.text}] {e.lines.first}-{e.lines.last}\n"

/-- The rows of a group under its line. -/
def block (group : Nat × List Entity) : String :=
  s!"{group.1}:\n" ++ String.join (group.2.map row)

/-- A report as text. -/
def text : FileReport → String
  | .failed path error => s!"{path}: error: {error}\n"
  | .mapped path entities =>
    s!"{path}\n" ++ String.join ((grouped entities).map block)

/-- Reports as text, in order. -/
def textOfAll (reports : List FileReport) : String := String.join (reports.map text)

end UnitAtlas.FileReport
