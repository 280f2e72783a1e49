-- Syntax trees. A node has a label and children; the label holds the source text of the node
-- and the row it starts in, counted from 0.
import UnitAtlas.Syntax.Kind

namespace UnitAtlas.Syntax

/-- What a node says of itself. `missing` marks a node that the parser made up to repair the
source; `hasError` tells that the node or something below it is an error or was made up. -/
structure Label where
  kind : Kind
  named : Bool
  missing : Bool
  hasError : Bool
  field : Option Field
  row : Nat
  text : String
  deriving Repr, DecidableEq

namespace Label

/-- The source line that the node starts in, counted from 1. -/
def line (l : Label) : UInt32 := UInt32.ofNat (l.row + 1)

/-- Whether the node itself shows that the source is broken. -/
def isBroken (l : Label) : Bool := l.kind == .error || l.missing

/-- Whether the node can be left out of its parent without a trace. -/
def isTrivia (l : Label) : Bool := l.kind.isTrivia && l.field.isNone

end Label

structure Node where
  label : Label
  children : List Node

namespace Node

/-! ## The first error of a broken tree -/

mutual
/-- The first broken node of a tree, parents before children, looking only below nodes that
say they have an error. -/
def firstError : Node → Option Label
  | ⟨label, children⟩ => if label.isBroken then some label else firstErrorAmong children

/-- The first broken node of the trees that say they have an error. -/
def firstErrorAmong : List Node → Option Label
  | [] => none
  | c :: cs =>
    match if c.label.hasError then firstError c else none with
    | some l => some l
    | none => firstErrorAmong cs
end

end Node

end UnitAtlas.Syntax
