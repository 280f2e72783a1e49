-- Each lambda of a source is compiled once: the units of lambdas are made of the lambdas of the
-- tree, one of each.
import UnitAtlas.Proofs.Compiler.Units
import UnitAtlas.Proofs.Reading.CompoundLambdas

namespace UnitAtlas.Compiler

open Syntax

/-- A unit is made of a lambda of the tree. -/
def MakesLambda (filename : String) (n : Node) (v : CodeUnit) : Prop :=
  (Reading.lambdaPart n).2.toUnit filename (Reading.lambdaPart n).1 = .ok v

/-- A collection that matches a list can be put into the order of the list. -/
theorem exists_perm_of_rel {α β : Type} {r : α → β → Prop} {as : List α} {bs : List β}
    (h : Multiset.Rel r as bs) : ∃ as', as'.Perm as ∧ List.Forall₂ r as' bs := by
  induction bs generalizing as with
  | nil =>
    rw [Multiset.coe_nil, Multiset.rel_zero_right, Multiset.coe_eq_zero] at h
    exact ⟨[], h ▸ List.Perm.refl _, List.Forall₂.nil⟩
  | cons b bs ih =>
    rw [← Multiset.cons_coe, Multiset.rel_cons_right] at h
    obtain ⟨a, rest, hab, hrest, has⟩ := h
    induction rest using Quotient.inductionOn with
    | h rest =>
      obtain ⟨as', hperm, hall⟩ := ih hrest
      refine ⟨a :: as', ?_, List.Forall₂.cons hab hall⟩
      exact ((List.perm_cons a).mpr hperm).trans (Multiset.coe_eq_coe.mp has).symm

theorem exists_made_of_compile {parse : Parser} {source filename : String} {root : Node}
    {u : CodeUnit} (hparse : parse source = some root) (hscript : root.isScript = true)
    (h : compile parse source filename = .ok u) :
    ∃ ns, ns.Perm root.lambdas ∧ List.Forall₂ (MakesLambda filename) ns u.lambdas := by
  obtain ⟨tree, htree, hcompile⟩ := compile_eq_ok.mp h
  rw [hparse] at htree
  cases htree
  have hunit := (compileTree_eq_ok.mp hcompile).2
  have hdraft := Reading.yields_moduleDraft hscript (Draft.whole_of_toUnit hunit)
  have hrel := Draft.rel_lambdas_of_toUnit hunit
  rw [Draft.lambdas_unit, if_neg (by decide), zero_add, hdraft, Multiset.rel_map_left] at hrel
  exact exists_perm_of_rel hrel

/-- The units of lambdas in a compiled source are made of the lambdas of its tree, each of one of
its own: none is dropped, and none is made twice. -/
theorem each_lambda_is_compiled_once (parse : Parser) (source filename : String) (root : Node)
    (u : CodeUnit) (hparse : parse source = some root) (hscript : root.isScript = true)
    (h : compile parse source filename = .ok u) :
    (∃ ns, ns.Perm root.lambdas ∧ List.Forall₂ (MakesLambda filename) ns u.lambdas) ∧
      u.lambdas.length = root.lambdas.length := by
  obtain ⟨ns, hperm, hmade⟩ := exists_made_of_compile hparse hscript h
  exact ⟨⟨ns, hperm, hmade⟩, hmade.length_eq.symm.trans hperm.length_eq⟩

/-! ### A lambda with another one as a default value -/

/-- `n = lambda k=lambda: 0: k`. -/
def defaultTree : Node :=
  node none 0 (.other "module") "" [
    node none 0 .expressionStatement "" [
      node none 0 .assignment "" [
        word (some .left) 0 "n",
        node (some .right) 0 .lambda "" [
          node (some .parameters) 0 (.other "lambda_parameters") "" [
            node none 0 .defaultParameter "" [
              word (some .name) 0 "k",
              node (some .value) 0 .lambda "" [node (some .body) 0 .integer "0" []]]],
          word (some .body) 0 "k"]]]]

def defaultParser : Parser := fun _ => some defaultTree

/-- The unit of a lambda of `m.py` on its first line. -/
def lambdaOf (code : Bytes) (varNames : List String) (consts : List (Constant CodeUnit)) :
    CodeUnit :=
  ⟨⟨"<lambda>", "m.py", 1, code, [], [], varNames, varNames.length, 0, .empty⟩, consts⟩

def defaultUnit : CodeUnit :=
  ⟨⟨"<module>", "m.py", 1,
      [100, 0, 0, 132, 0, 0, 100, 1, 0, 132, 1, 0, 90, 0, 0, 100, 2, 0, 83], [], ["n"], [], 0, 0,
      .empty⟩,
    [.unit (lambdaOf [100, 0, 0, 83] [] [.literal (.int 0)]),
      .unit (lambdaOf [124, 0, 0, 83] ["k"] []), .literal .none]⟩

set_option maxRecDepth 10000 in
theorem compile_default : compile defaultParser "" "m.py" = .ok defaultUnit := by
  with_unfolding_all rfl

theorem isScript_defaultTree : defaultTree.isScript = true := by decide +kernel

theorem a_lambda_and_its_default_are_compiled :
    compile defaultParser "" "m.py" = .ok defaultUnit ∧ defaultTree.isScript = true ∧
      defaultUnit.lambdas.length = 2 := by
  obtain ⟨-, hlength⟩ := each_lambda_is_compiled_once defaultParser "" "m.py" defaultTree
    defaultUnit rfl isScript_defaultTree compile_default
  exact ⟨compile_default, isScript_defaultTree, hlength⟩

/-! ### A class with a keyword argument -/

/-- `class C(k=lambda: 0):` and `pass` on the next line. -/
def keywordTree : Node :=
  node none 0 (.other "module") "" [
    node none 0 .classDefinition "" [
      word (some .name) 0 "C",
      node (some .superclasses) 0 (.other "argument_list") "" [
        node none 0 .keywordArgument "" [
          word (some .name) 0 "k",
          node (some .value) 0 .lambda "" [node (some .body) 0 .integer "0" []]]],
      node (some .body) 1 .block "" [node none 1 .passStatement "" []]]]

def keywordParser : Parser := fun _ => some keywordTree

def keywordUnit : CodeUnit :=
  ⟨⟨"<module>", "m.py", 1,
      [100, 0, 0, 102, 0, 0, 100, 1, 0, 132, 0, 0, 131, 0, 0, 89, 90, 0, 0, 100, 2, 0, 83], [],
      ["C"], [], 0, 0, .empty⟩,
    [.literal (.str "C"),
      .unit ⟨⟨"C", "m.py", 1, [101, 0, 0, 90, 1, 0, 82, 83], [6, 1], ["__name__", "__module__"],
        [], 0, 0, .empty⟩, []⟩,
      .literal .none]⟩

/-- What a class is given by keyword is not compiled, so a lambda there is in no unit, although it
stands in no string and in no annotation. -/
theorem a_keyword_of_a_class_is_not_compiled :
    compile keywordParser "" "m.py" = .ok keywordUnit ∧ keywordTree.label.hasError = false ∧
      keywordTree.isScript = true ∧ keywordTree.shownLambdas.length = 1 ∧
      keywordUnit.lambdas.length = 0 := by
  refine ⟨?_, rfl, by decide +kernel, by decide +kernel, by decide +kernel⟩
  with_unfolding_all rfl

end UnitAtlas.Compiler
