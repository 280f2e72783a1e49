-- Lines of bytes. A line ends with a line feed or with the text.

namespace UnitAtlas.Lines

/-- The lines of a text, each with its line feed, if it has one. -/
def raw : List UInt8 → List (List UInt8)
  | [] => []
  | b :: rest =>
    if b = 10 then [b] :: raw rest
    else
      match raw rest with
      | [] => [[b]]
      | line :: later => (b :: line) :: later

/-- What a line holds: all of it but its line feed and a carriage return right before that. -/
def content (line : List UInt8) : List UInt8 :=
  match line.reverse with
  | 10 :: 13 :: rest => rest.reverse
  | 10 :: rest => rest.reverse
  | _ => line

end UnitAtlas.Lines
