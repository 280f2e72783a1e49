-- Globs: patterns for paths whose names are joined by slashes. A star stays within a name;
-- two stars between slashes stand for any directories; braces hold alternatives. A pattern is
-- for bytes, so a name need not be text, and a character of several bytes is several pieces.

namespace UnitAtlas

/-- A piece of a pattern. -/
inductive GlobToken where
  | exactly (b : UInt8)
  /-- One byte of a name. -/
  | any
  /-- Any bytes of a name. -/
  | star
  /-- A byte in one of the ranges, or in none of them. -/
  | oneOf (negated : Bool) (ranges : List (UInt8 × UInt8))
  /-- `**/` at the start: any directories, or none. -/
  | fromAnywhere
  /-- `/**/`: a slash, with any directories behind it. -/
  | through
  /-- `/**` at the end: anything inside. -/
  | inside
  /-- One of the branches. -/
  | eitherOf (branches : List (List GlobToken))
  deriving Repr

namespace Glob

/-! ## Branches without a piece -/

mutual
/-- Whether a token has no piece: braces with nothing in them but commas and such braces. -/
def isVoid : GlobToken → Bool
  | .eitherOf branches => areVoid branches
  | _ => false

def isVoidBranch : List GlobToken → Bool
  | [] => true
  | t :: ts => isVoid t && isVoidBranch ts

def areVoid : List (List GlobToken) → Bool
  | [] => true
  | b :: bs => isVoidBranch b && areVoid bs
end

/-! ## Depth -/

/-- How many pieces a token stands for beside its neighbours. -/
def pieces (t : GlobToken) : Nat :=
  match t with
  | .inside => 2
  | _ => if isVoid t then 0 else 1

/-- A level for the pieces of a sequence, if there are several. -/
def levelFor (count : Nat) : Nat := if count > 1 then 1 else 0

mutual
/-- The levels in a token: one for a class and one for a repetition, one for braces and one
for the alternatives in them. -/
def depth : GlobToken → Nat
  | .exactly _ => 0
  | .any => 1
  | .star => 2
  | .oneOf _ ranges => 1 + levelFor ranges.length
  | .fromAnywhere => 4
  | .through => 4
  | .inside => 1
  | .eitherOf branches =>
    1 + levelFor (branches.filter fun b => !isVoidBranch b).length + depthOfBranches branches

def depthOfAll : List GlobToken → Nat
  | [] => 0
  | t :: ts => max (depth t) (depthOfAll ts)

def depthOfBranches : List (List GlobToken) → Nat
  | [] => 0
  | b :: bs => max (levelFor (b.map pieces).sum + depthOfAll b) (depthOfBranches bs)
end

/-- The levels that a pattern may have. -/
def depthLimit : Nat := 250

/-- Whether a pattern, a level itself, has too many levels to be used. -/
def isTooDeep (pattern : List GlobToken) : Bool := 1 + depthOfAll pattern > depthLimit

end Glob

end UnitAtlas
