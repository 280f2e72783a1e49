-- Which paths a pattern is for. The marks of a text say which places the tokens so far can
-- reach: a mark before each byte and one at the end. Each token moves all marks at once, so a
-- pattern with many stars takes no longer than its tokens and the bytes of the path.
import UnitAtlas.Files.Glob.Token

namespace UnitAtlas.Glob

def slash : UInt8 := '/'.toUInt8

/-! ## Moving marks -/

/-- The marks behind one byte that `accepts` accepts. -/
def afterByte (accepts : UInt8 → Bool) (text : List UInt8) (marks : List Bool) : List Bool :=
  false :: List.zipWith (fun b mark => mark && accepts b) text marks

/-- The marks behind any number of bytes that `accepts` accepts; `reached` says whether such
bytes lead to the first of the marks. -/
def afterBytes (accepts : UInt8 → Bool) (reached : Bool) : List UInt8 → List Bool → List Bool
  | _, [] => []
  | [], mark :: _ => [mark || reached]
  | b :: text, mark :: marks =>
    (mark || reached) :: afterBytes accepts ((mark || reached) && accepts b) text marks

/-- The marks of either. -/
def both (as bs : List Bool) : List Bool := List.zipWith (· || ·) as bs

def inRanges (negated : Bool) (ranges : List (UInt8 × UInt8)) (b : UInt8) : Bool :=
  (ranges.any fun r => r.1 ≤ b && b ≤ r.2) != negated

def afterSlash (text : List UInt8) (marks : List Bool) : List Bool :=
  afterByte (· == slash) text marks

def afterAnything (text : List UInt8) (marks : List Bool) : List Bool :=
  afterBytes (fun _ => true) false text marks

/-- The marks behind any directories, or none. -/
def afterDirectories (text : List UInt8) (marks : List Bool) : List Bool :=
  both marks (afterSlash text (afterAnything text marks))

/-! ## Matching -/

mutual
/-- The marks behind a token. -/
def afterToken (text : List UInt8) (marks : List Bool) : GlobToken → List Bool
  | .exactly b => afterByte (· == b) text marks
  | .any => afterByte (· != slash) text marks
  | .oneOf negated ranges => afterByte (inRanges negated ranges) text marks
  | .star => afterBytes (· != slash) false text marks
  | .fromAnywhere => afterDirectories text marks
  | .through => afterDirectories text (afterSlash text marks)
  | .inside => afterAnything text (afterSlash text marks)
  | .eitherOf branches => if areVoid branches then marks else afterBranches text marks branches

/-- The marks behind several tokens. -/
def afterTokens (text : List UInt8) (marks : List Bool) : List GlobToken → List Bool
  | [] => marks
  | t :: ts => afterTokens text (afterToken text marks t) ts

/-- The marks behind one of several branches. Those without a piece do not count. -/
def afterBranches (text : List UInt8) (marks : List Bool) : List (List GlobToken) → List Bool
  | [] => marks.map fun _ => false
  | b :: bs =>
    if isVoidBranch b then afterBranches text marks bs
    else both (afterTokens text marks b) (afterBranches text marks bs)
end

/-- Only the start of a text marked. -/
def startMarks (text : List UInt8) : List Bool := true :: text.map fun _ => false

/-- Whether a pattern is for the whole of a path. -/
def isFor (pattern : List GlobToken) (path : List UInt8) : Bool :=
  (afterTokens path (startMarks path) pattern).getLast? == some true

end UnitAtlas.Glob
