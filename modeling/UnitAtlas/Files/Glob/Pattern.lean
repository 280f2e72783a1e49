-- Reading patterns. A backslash makes the next character stand for itself; brackets hold a
-- class of characters, and a bracket that none closes stands for itself too.
import UnitAtlas.Files.Glob.Token
import UnitAtlas.Text.Utf8

namespace UnitAtlas.Glob

/-! ## Classes of characters -/

/-- What an opening bracket turns out to be. -/
inductive ClassReading where
  /-- No bracket closes it. -/
  | unclosed
  /-- A range in it ends before it starts. -/
  | reversed
  | closed (ranges : List (Char × Char)) (rest : List Char)

/-- The last range made to end with a character; none if it would be reversed. -/
def endRange (c : Char) (ranges : List (Char × Char)) : Option (List (Char × Char)) :=
  match ranges.getLast? with
  | some (a, _) => if a ≤ c then some (ranges.dropLast ++ [(a, c)]) else none
  | none => none

/-- The ranges of a class, up to the bracket that ends it. A bracket that comes first does
not end it, and a hyphen that comes first or last stands for itself. -/
def classRanges (ranges : List (Char × Char)) (inRange : Bool) : List Char → ClassReading
  | [] => .unclosed
  | c :: rest =>
    if c = ']' ∧ !ranges.isEmpty then
      .closed (if inRange then ranges ++ [('-', '-')] else ranges) rest
    else if inRange then
      match endRange c ranges with
      | some longer => classRanges longer false rest
      | none => .reversed
    else if c = '-' ∧ !ranges.isEmpty then classRanges ranges true rest
    else classRanges (ranges ++ [(c, c)]) false rest

/-- Each byte a range of its own. -/
def eachByte (bytes : List UInt8) : List (UInt8 × UInt8) := bytes.map fun b => (b, b)

/-- The bytes that a range of characters stands for. Only the last byte of the one end and the
first byte of the other make a range; the bytes around them are ranges of their own. -/
def byteRanges (ends : Char × Char) : List (UInt8 × UInt8) :=
  if ends.1 = ends.2 then eachByte (Utf8.encodeChar ends.1)
  else
    match (Utf8.encodeChar ends.1).reverse, Utf8.encodeChar ends.2 with
    | low :: before, high :: later => eachByte before.reverse ++ (low, high) :: eachByte later
    | _, _ => []

def classToken (negated : Bool) (ranges : List (Char × Char)) : GlobToken :=
  .oneOf negated (ranges.flatMap byteRanges)

def isNegation (c : Char) : Bool := c == '!' || c == '^'

/-! ## Patterns -/

/-- How far a pattern has been read: the tokens of the branch at hand, the last one first, for
each open brace, the innermost first, the tokens before it and the branches that have ended,
and whether a bracket was found that none closes. Then no bracket opens a class any more. -/
structure Progress where
  branch : List GlobToken := []
  outer : List (List GlobToken × List (List GlobToken)) := []
  plainBrackets : Bool := false

namespace Progress

def push (p : Progress) (t : GlobToken) : Progress := { p with branch := t :: p.branch }

/-- A character that stands for itself. -/
def pushChar (p : Progress) (c : Char) : Progress :=
  (Utf8.encodeChar c).foldl (fun q b => q.push (.exactly b)) p

def openBrace (p : Progress) : Progress :=
  { p with branch := [], outer := (p.branch, []) :: p.outer }

/-- A comma ends a branch; outside of braces it is a character. -/
def comma (p : Progress) : Progress :=
  match p.outer with
  | [] => p.pushChar ','
  | (before, ended) :: outer =>
    { p with branch := [], outer := (before, ended ++ [p.branch.reverse]) :: outer }

def closeBrace (p : Progress) : Option Progress :=
  match p.outer with
  | [] => none
  | (before, ended) :: outer =>
    some { p with branch := .eitherOf (ended ++ [p.branch.reverse]) :: before, outer := outer }

/-- What an opening bracket and the characters behind it are; none for a reversed range. -/
def openBracket (p : Progress) (rest : List Char) : Option (Progress × List Char) :=
  let negated := (rest.head?.map isNegation).getD false
  if p.plainBrackets then some (p.pushChar '[', rest)
  else
    match classRanges [] false (if negated then rest.drop 1 else rest) with
    | .closed ranges later => some (p.push (classToken negated ranges), later)
    | .unclosed => some ({ p.pushChar '[' with plainBrackets := true }, rest)
    | .reversed => none

/-! ### Two stars -/

/-- Whether two stars that come before `rest` end a branch. -/
def endsBranch (p : Progress) : List Char → Bool
  | [] => true
  | c :: _ => (c == ',' || c == '\x7d') && !p.outer.isEmpty

def twoStars (p : Progress) : Progress := (p.push .star).push .star

/-- Whether two stars behind a token can stand for directories: behind a slash, and within
braces also behind a comma or a brace that stands for itself. -/
def leadsIn (p : Progress) : GlobToken → Bool
  | .exactly b => b == '/'.toUInt8
    || (!p.outer.isEmpty && (b == ','.toUInt8 || b == '\x7b'.toUInt8))
  | .fromAnywhere => true
  | .through => true
  | _ => false

/-- Two stars in the place of `last`, and what follows them. -/
def directories (p : Progress) (last : GlobToken) (before : List GlobToken)
    (rest : List Char) : Progress × List Char :=
  let joined (t : GlobToken) : Progress :=
    { p with branch := (match last with | .fromAnywhere => last | _ => t) :: before }
  match rest with
  | '/' :: later => (joined .through, later)
  | _ => if p.endsBranch rest then (joined .inside, rest) else (p.twoStars, rest)

/-- Two stars, and what follows them. -/
def doubleStar (p : Progress) (rest : List Char) : Progress × List Char :=
  match p.branch, rest with
  | [], [] => (p.push .fromAnywhere, [])
  | [], '/' :: later => (p.push .fromAnywhere, later)
  | [], _ => (p.twoStars, rest)
  | last :: before, _ =>
    if p.leadsIn last then p.directories last before rest else (p.twoStars, rest)

end Progress

/-- The tokens of a pattern, the characters of which are read one after the other. -/
def readFrom (p : Progress) : Nat → List Char → Option (List GlobToken)
  | _, [] => if p.outer.isEmpty then some p.branch.reverse else none
  | 0, _ :: _ => none
  | fuel + 1, c :: rest =>
    match c, rest with
    | '*', '*' :: later =>
      let (after, later) := p.doubleStar later
      readFrom after fuel later
    | '*', _ => readFrom (p.push .star) fuel rest
    | '?', _ => readFrom (p.push .any) fuel rest
    | '[', _ =>
      match p.openBracket rest with
      | some (after, later) => readFrom after fuel later
      | none => none
    | '\x7b', _ => readFrom p.openBrace fuel rest
    | '\x7d', _ =>
      match p.closeBrace with
      | some after => readFrom after fuel rest
      | none => none
    | ',', _ => readFrom p.comma fuel rest
    | '\\', e :: later => readFrom (p.pushChar e) fuel later
    | '\\', [] => none
    | _, _ => readFrom (p.pushChar c) fuel rest

/-- The tokens of a pattern; none when it is not well formed. Two stars alone are for every
path. -/
def read (pattern : List Char) : Option (List GlobToken) :=
  (readFrom {} pattern.length pattern).map fun
    | [.fromAnywhere] => [.fromAnywhere, .star]
    | tokens => tokens

end UnitAtlas.Glob
