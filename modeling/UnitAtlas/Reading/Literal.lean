-- Number literals. A literal that is no number of the machine stays as text.
import UnitAtlas.Number.Double
import UnitAtlas.Number.Numeral
import UnitAtlas.Unit.Basic

namespace UnitAtlas.Reading

/-- The characters of a number without the underscores that group its digits. -/
def ungrouped (text : String) : List Char := text.toList.filter (· ≠ '_')

/-- The characters without the letters `l` at their end that mark a long number. -/
def withoutLongMark (cs : List Char) : List Char :=
  (cs.reverse.dropWhile fun c => c == 'l' || c == 'L').reverse

/-- The value of a whole number, its base given by the two characters at its start. -/
def wholeValue : List Char → Except NumeralError Int
  | '0' :: 'x' :: cs => Numeral.signed 16 cs
  | '0' :: 'o' :: cs => Numeral.signed 8 cs
  | '0' :: 'b' :: cs => Numeral.signed 2 cs
  | cs => Numeral.signed 10 cs

/-- A whole number literal. Letters count the same in both cases. -/
def integerLiteral (text : String) : Literal :=
  match wholeValue ((withoutLongMark (ungrouped text)).map Char.toLower) with
  | .ok n => .int n
  | .error _ => .str text

/-- A float literal. -/
def floatLiteral (text : String) : Literal :=
  let cs := ungrouped text
  match Double.ofChars? cs with
  | some bits => .float bits
  | none => .str (String.ofList cs)

end UnitAtlas.Reading
