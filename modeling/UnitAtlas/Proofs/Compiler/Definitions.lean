-- The outline of a source is kept by compiling: at each place of the forest of definitions there
-- is a unit that is no lambda, with the name of the definition and the line that it starts at.
import UnitAtlas.Proofs.Compiler.Units
import UnitAtlas.Proofs.Reading.DefinedUnits

namespace UnitAtlas.Compiler

open Syntax

/-- A compiled source holds what its tree defines. -/
theorem holds_of_compile {parse : Parser} {source filename : String} {root : Node} {u : CodeUnit}
    (hparse : parse source = some root) (hsource : root.isSource = true)
    (h : compile parse source filename = .ok u) : Reading.Holds filename root u := by
  obtain ⟨tree, htree, hcompile⟩ := compile_eq_ok.mp h
  rw [hparse] at htree
  cases htree
  exact Reading.holds_of_unitOf hsource (compileTree_eq_ok.mp hcompile).2

/-- The units of a compiled source that are no lambdas are the definitions of its tree, each below
the nearest one around it and in document order. Each has the name of its definition, and its
first line is that of the first decorator, or of the definition when it has none. -/
theorem units_are_the_definitions_of_the_tree (parse : Parser) (source filename : String)
    (root : Node) (u : CodeUnit) (hparse : parse source = some root)
    (hsource : root.isSource = true) (h : compile parse source filename = .ok u) (a : List Nat) :
    ((u.definedAt? a).bind u.at?).map (fun v => (v.info.name, v.info.firstLine)) =
      (root.definitionAt? a).map fun d => (d.name, UInt32.ofNat (d.row + 1)) := by
  rcases (holds_of_compile hparse hsource h).definedAt? a with ⟨hnone, hnone'⟩ |
    ⟨d, n, p, b, j, v, hd, -, -, ha, hb, hv, values, shape, body, makes, hparts, hmade⟩
  · rw [hnone, hnone']
    rfl
  · obtain ⟨hname, hline⟩ := Draft.info_of_toUnit hmade
    have hat : u.at? (b ++ [j]) = some v := by
      rw [CodeUnit.at?_append, hb, Option.bind_some, CodeUnit.at?_singleton, hv]
    rw [ha, hd, Option.bind_some, hat, Option.map_some, Option.map_some, hname, hline, hparts.name,
      hparts.firstLine]

/-! ### A function with a class in it, and a decorated function, in two suites -/

/-- `if n:`, `def f():`, `class C:`, `pass`; `else:`, `@n`, `def g():` and `pass`, each on a line
of its own. -/
def outlineTree : Node :=
  node none 0 (.other "module") "" [
    node none 0 .ifStatement "" [
      word (some .condition) 0 "n",
      node (some .consequence) 1 .block "" [
        node none 1 .functionDefinition "" [
          word (some .name) 1 "f",
          node (some .parameters) 1 (.other "parameters") "" [],
          node (some .body) 2 .block "" [
            node none 2 .classDefinition "" [
              word (some .name) 2 "C",
              node (some .body) 3 .block "" [node none 3 .passStatement "" []]]]]],
      node (some .alternative) 4 .elseClause "" [
        node (some .body) 5 .block "" [
          node none 5 .decoratedDefinition "" [
            node none 5 .decorator "" [word none 5 "n"],
            node (some .definition) 6 .functionDefinition "" [
              word (some .name) 6 "g",
              node (some .parameters) 6 (.other "parameters") "" [],
              node (some .body) 7 .block "" [node none 7 .passStatement "" []]]]]]]]

def outlineParser : Parser := fun _ => some outlineTree

/-- The unit of a function, of a class or of a module of `m.py`, without parameters. -/
def plainUnit (name : String) (firstLine : UInt32) (code lineTable : Bytes)
    (names varNames : List String) (consts : List (Constant CodeUnit)) : CodeUnit :=
  ⟨⟨name, "m.py", firstLine, code, lineTable, names, varNames, 0, 0, .empty⟩, consts⟩

def outlineClass : CodeUnit :=
  plainUnit "C" 3 [101, 0, 0, 90, 1, 0, 82, 83] [6, 1] ["__name__", "__module__"] [] []

def outlineFunction : CodeUnit :=
  plainUnit "f" 2 [100, 1, 0, 102, 0, 0, 100, 2, 0, 132, 0, 0, 131, 0, 0, 89, 125, 0, 0, 100, 0, 0, 83]
    [0, 1] [] ["C"] [.literal .none, .literal (.str "C"), .unit outlineClass]

def outlineDecorated : CodeUnit :=
  plainUnit "g" 6 [100, 0, 0, 83] [0, 2] [] [] [.literal .none]

def outlineUnit : CodeUnit :=
  plainUnit "<module>" 1
    [101, 0, 0, 114, 18, 0, 100, 0, 0, 132, 0, 0, 90, 1, 0, 110, 15, 0, 101, 0, 0, 100, 1, 0,
      132, 0, 0, 131, 1, 0, 90, 2, 0, 100, 2, 0, 83]
    [6, 1, 12, 4] ["n", "f", "g"] []
    [.unit outlineFunction, .unit outlineDecorated, .literal .none]

set_option maxRecDepth 10000 in
theorem compile_outline : compile outlineParser "" "m.py" = .ok outlineUnit := by
  with_unfolding_all rfl

theorem isSource_outlineTree : outlineTree.isSource = true := by decide +kernel

theorem both_suites_of_a_branch_keep_their_definitions :
    compile outlineParser "" "m.py" = .ok outlineUnit ∧ outlineTree.isSource = true ∧
      [[0], [0, 0], [1], [2]].map (fun a => ((outlineUnit.definedAt? a).bind outlineUnit.at?).map
        fun v => (v.info.name, v.info.firstLine)) =
        [some ("f", 2), some ("C", 3), some ("g", 6), none] := by
  refine ⟨compile_outline, isSource_outlineTree, ?_⟩
  have hplaces := units_are_the_definitions_of_the_tree outlineParser "" "m.py" outlineTree
    outlineUnit rfl isSource_outlineTree compile_outline
  rw [funext hplaces]
  rfl

end UnitAtlas.Compiler
