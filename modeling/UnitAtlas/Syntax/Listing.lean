-- Listings: a syntax tree written down as its nodes from the root on, parents before
-- children, each with its depth. This is how a parser hands its trees over.
import UnitAtlas.Syntax.Node

namespace UnitAtlas.Syntax

/-- One node of a listing. `start` and `stop` are byte offsets into the source. -/
structure Row where
  depth : Nat
  kind : String
  named : Bool
  missing : Bool
  hasError : Bool
  field : Option String
  row : Nat
  start : Nat
  stop : Nat
  deriving Repr, DecidableEq

namespace Row

/-- The source text between two byte offsets; empty when they do not bound a text. -/
def textOf (source : ByteArray) (start stop : Nat) : String :=
  (String.fromUTF8? (source.extract start stop)).getD ""

def label (source : ByteArray) (r : Row) : Label where
  kind := Kind.ofName r.kind
  named := r.named
  missing := r.missing
  hasError := r.hasError
  field := r.field.bind Field.ofName?
  row := r.row
  text := textOf source r.start r.stop

/-! ## Written rows -/

/-- A row whose flags are the sum of 1 for a named node, 2 for one that the parser made up, and
4 for one that has an error. -/
def ofFlags (depth : Nat) (kind : String) (flags : Nat) (field : Option String)
    (row start stop : Nat) : Row where
  depth := depth
  kind := kind
  named := flags.testBit 0
  missing := flags.testBit 1
  hasError := flags.testBit 2
  field := field
  row := row
  start := start
  stop := stop

/-- A row written on a line, its parts between tabs. An empty field is none. -/
def ofLine? (line : String) : Option Row :=
  match line.splitOn "\t" with
  | [depth, kind, flags, field, row, start, stop] => do
    return ofFlags (← depth.toNat?) kind (← flags.toNat?) (if field = "" then none else some field)
      (← row.toNat?) (← start.toNat?) (← stop.toNat?)
  | _ => none

/-- The rows of a text, one on each line that is not empty. -/
def ofText? (text : String) : Option (List Row) :=
  ((text.splitOn "\n").filter (· ≠ "")).mapM ofLine?

end Row

namespace Node

/-- Puts a row before the trees that follow it: those deeper than the row, up to the first
that is not, become its children. -/
def hang (source : ByteArray) (r : Row) (later : List (Nat × Node)) : List (Nat × Node) :=
  let children := later.takeWhile (r.depth < ·.1)
  (r.depth, ⟨r.label source, children.map (·.2)⟩) :: later.drop children.length

/-- The tree of a listing; none when nothing is listed. -/
def ofRows (source : String) (rows : List Row) : Option Node :=
  ((rows.foldr (hang source.toUTF8) []).head?).map (·.2)

end Node

end UnitAtlas.Syntax
