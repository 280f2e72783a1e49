-- Ignore files: each line of one is a pattern for paths below its directory that are to be
-- left out, or, after an exclamation mark, to be kept. Of several patterns for one path
-- the last one counts, and an ignore file nearer to the path counts before the others.
import UnitAtlas.Files.Glob.Matching
import UnitAtlas.Files.Glob.Pattern
import UnitAtlas.Files.System
import UnitAtlas.Text.Blank
import UnitAtlas.Text.Lines
import UnitAtlas.Text.Utf8

namespace UnitAtlas

/-- A line of an ignore file. -/
structure IgnoreRule where
  pattern : List GlobToken
  keeps : Bool
  onlyDirectories : Bool
  deriving Repr

namespace Ignore

/-- The name of ignore files. -/
def fileName : String := ".ignore"

/-! ## Reading -/

/-- A line without the blanks at its end, unless the last of them is escaped. -/
def trimLine (line : List Char) : List Char :=
  if ['\\', ' '].isSuffixOf line then line else Blank.trimEnd line

/-- What the mark or the slash at the start says: whether the rule keeps, whether it is bound
to its directory, and the pattern. -/
def opening : List Char → Bool × Bool × List Char
  | '\\' :: '!' :: rest => (false, false, '!' :: rest)
  | '\\' :: '#' :: rest => (false, false, '#' :: rest)
  | '!' :: '/' :: rest => (true, true, rest)
  | '!' :: rest => (true, false, rest)
  | '/' :: rest => (false, true, rest)
  | rest => (false, false, rest)

/-- Whether a pattern is only for directories, and the pattern without the slash that says so. -/
def closing (pattern : List Char) : Bool × List Char :=
  match pattern.reverse with
  | '/' :: '\\' :: rest => (true, rest.reverse)
  | '/' :: rest => (true, rest.reverse)
  | _ => (false, pattern)

/-- A pattern without a slash is for names in any directory below. -/
def anywhere (bound : Bool) (pattern : List Char) : List Char :=
  if bound || pattern.contains '/' || pattern = ['*', '*'] then pattern
  else ['*', '*', '/'] ++ pattern

/-- What is inside a directory does not include the directory. -/
def strictlyInside (pattern : List Char) : List Char :=
  if ['/', '*', '*'].isSuffixOf pattern then pattern ++ ['/', '*'] else pattern

/-- The rule of a line; none for comments, empty lines and patterns not well formed. -/
def rule? (line : List Char) : Option IgnoreRule :=
  let trimmed := trimLine line
  if trimmed.isEmpty || trimmed.head? = some '#' then none
  else
    let (keeps, bound, pattern) := opening trimmed
    let (onlyDirectories, pattern) := closing pattern
    (Glob.read (strictlyInside (anywhere bound pattern))).map fun tokens =>
      ⟨tokens, keeps, onlyDirectories⟩

/-- The lines of an ignore file, up to the first that is not text, without a byte order mark. -/
def lines (content : Bytes) : List (List Char) :=
  let texts := (Lines.raw content).map fun line => Utf8.strict? (Lines.content line)
  match (texts.takeWhile Option.isSome).map fun text => (text.getD "").toList with
  | [] => []
  | first :: later => first.dropWhile (· == '\uFEFF') :: later

/-- The rules of an ignore file. One pattern with too many levels leaves it without any. -/
def rules (content : Bytes) : List IgnoreRule :=
  let all := (lines content).filterMap rule?
  if all.any fun r => Glob.isTooDeep r.pattern then [] else all

/-! ## Deciding -/

/-- What the rules of one ignore file say of a path below it: to leave it out, to keep it, or
nothing. -/
def verdict (rs : List IgnoreRule) (path : Bytes) (isDirectory : Bool) : Option Bool :=
  (rs.reverse.find? fun r =>
    Glob.isFor r.pattern path && (isDirectory || !r.onlyDirectories)).map (!·.keeps)

/-- The rules in a directory. -/
def rulesIn (fs : FileSystem) (directory : Location) : List IgnoreRule :=
  match fs.entry? (directory ++ [fileName]) with
  | some (.file content) => rules content
  | _ => []

/-- The number of names that are above a location, for each directory above it, the nearest
one first. -/
def depthsAbove (spot : Location) : List Nat := (List.range spot.length).reverse

/-- Two dots that lead nowhere at the start of a path. -/
def idleStart : String := "././"

/-- A path as the rules of a walked directory see it. They see what is below the directory,
but a path with two idle dots at its start they see as a whole, without the dots. -/
def seen (path below : String) : String :=
  if path.startsWith idleStart then String.ofList (path.toList.drop idleStart.length) else below

/-- Whether a walk leaves out the path `path`, which leads to `spot`. The walk starts in a
directory that `top` names lead to. -/
def isIgnored (fs : FileSystem) (top : Nat) (path : String) (spot : Location)
    (isDirectory : Bool) : Bool :=
  ((depthsAbove spot).findSome? fun n =>
    let below := "/".intercalate (spot.drop n)
    let text := if n < top then below else seen path below
    verdict (rulesIn fs (spot.take n)) (Utf8.encode text) isDirectory).getD false

end Ignore

end UnitAtlas
