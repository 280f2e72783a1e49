-- The compiler: a parser's tree becomes a unit, or an error that names its place.
import UnitAtlas.Backend
import UnitAtlas.Reading.Tree
import UnitAtlas.Syntax.Listing

namespace UnitAtlas.Compiler

open Syntax

/-- A parser gives the tree of a source, or none when it gives up. -/
abbrev Parser := String → Option Node

/-- The parser that knows the trees of some sources, as listings, and gives up on all others. -/
def Parser.ofListings (known : List (String × List Row)) : Parser := fun source =>
  (known.lookup source).bind (Node.ofRows source)

/-- The line that a broken tree is reported at. -/
def errorLine (root : Node) : Nat := ((Node.firstError root).map (·.row + 1)).getD 1

/-- Compiles a tree. A tree that has an error is refused. -/
def compileTree (filename : String) (root : Node) : Except (Fault ErrorChain) CodeUnit :=
  if root.label.hasError then
    .error (.error ⟨s!"{filename}:{errorLine root}: invalid syntax", []⟩)
  else Fault.rename (·.chain filename) (Reading.unitOf filename root)

/-- Compiles a source. -/
def compile (parse : Parser) (source filename : String) : Except (Fault ErrorChain) CodeUnit :=
  match parse source with
  | none => .error (.error ⟨s!"Parser produced no tree for {filename}", []⟩)
  | some root => compileTree filename root

/-- One function that holds one class and one more statement. -/
def classProbe : String := "def probe():\n    class Probe:\n        pass\n    pass\n"

/-- The tree of the probe. -/
def classProbeListing : List Row := [
  .ofFlags 0 "module" 1 none 0 0 52,
  .ofFlags 1 "function_definition" 1 none 0 0 51,
  .ofFlags 2 "identifier" 1 (some "name") 0 4 9,
  .ofFlags 2 "parameters" 1 (some "parameters") 0 9 11,
  .ofFlags 2 "block" 1 (some "body") 1 17 51,
  .ofFlags 3 "class_definition" 1 none 1 17 42,
  .ofFlags 4 "identifier" 1 (some "name") 1 23 28,
  .ofFlags 4 "block" 1 (some "body") 2 38 42,
  .ofFlags 5 "pass_statement" 1 none 2 38 42,
  .ofFlags 3 "pass_statement" 1 none 3 47 51]

/-- The compiler behind a parser, as a backend. -/
def backend (parse : Parser) : Backend := ⟨compile parse, classProbe⟩

end UnitAtlas.Compiler
