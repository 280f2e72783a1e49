-- The text of a source file. A file should be UTF-8; one that is not may name its encoding
-- in a comment on its first two lines.
import UnitAtlas.Text.Blank
import UnitAtlas.Text.Utf8
import UnitAtlas.Unit.Basic

namespace UnitAtlas.Source

/-! ## The encoding comment -/

/-- The lines of a byte string, split at every line feed. -/
def lines : Bytes → List Bytes
  | [] => [[]]
  | b :: rest =>
    if b = 10 then [] :: lines rest
    else
      match lines rest with
      | [] => [[b]]
      | line :: later => (b :: line) :: later

/-- What follows the first occurrence of `pattern`. -/
def after? (pattern : List Char) : List Char → Option (List Char)
  | [] => if pattern.isPrefixOf [] then some [] else none
  | c :: cs =>
    if pattern.isPrefixOf (c :: cs) then some ((c :: cs).drop pattern.length)
    else after? pattern cs

def isAsciiLetterOrDigit (c : Char) : Bool := c.isAlphanum

/-- The characters of encoding names. -/
def isNameChar (c : Char) : Bool := isAsciiLetterOrDigit c || c == '-' || c == '_' || c == '.'

/-- The name behind the colon or equals sign; none when it is empty. -/
def namedAfterSign : List Char → Option (List Char)
  | c :: cs =>
    if c = ':' ∨ c = '=' then
      let name := (Blank.trimStart cs).takeWhile isNameChar
      if name.isEmpty then none else some name
    else none
  | [] => none

/-- The name that a comment line gives right after the first `coding` in it. -/
def cookieOfLine (line : List Char) : Option (List Char) :=
  match Blank.trimStart line with
  | '#' :: comment => (after? "coding".toList comment).bind namedAfterSign
  | _ => none

/-- Encoding names in their common spelling. -/
def normalName (name : List Char) : String :=
  String.ofList (name.map fun c => if c = '_' then '-' else c.toLower)

/-- The encoding that one of the first two lines names. -/
def codingCookie (raw : Bytes) : Option String :=
  (((lines raw).take 2).findSome? fun line => cookieOfLine (Utf8.lossy line)).map normalName

/-! ## Decoding -/

/-- The names of the encoding in which every byte is the character of that number. -/
def latin1Names : List String :=
  ["latin-1", "latin1", "l1", "iso-8859-1", "iso8859-1", "iso-latin-1", "cp819"]

def latin1 (raw : Bytes) : String := String.ofList (raw.map fun b => Char.ofNat b.toNat)

/-- The text of a file: as UTF-8 if it is that, else as its comment says if it names Latin-1,
else as UTF-8 with what is broken replaced. -/
def decode (raw : Bytes) : String :=
  match Utf8.strict? raw with
  | some text => text
  | none =>
    if (codingCookie raw).any latin1Names.contains then latin1 raw
    else String.ofList (Utf8.lossy raw)

/-- Stands behind every source, so that its last definition is followed by a statement. -/
def sentinelTail : String := "\n#dummy code\ndummydummy = None\n"

/-- The text of a file as it is compiled. -/
def prepared (raw : Bytes) : String := decode raw ++ sentinelTail

end UnitAtlas.Source
