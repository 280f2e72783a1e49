-- The arguments that a compiled source shows are those that it declares. The unit of a function or
-- a lambda keeps its parameters in another order, and its local variables behind them; read back
-- with the counts and the flags, they come out as they are written.
import UnitAtlas.Proofs.Compiler.Definitions
import UnitAtlas.Proofs.Compiler.Lambdas
import UnitAtlas.Proofs.Reading.Signatures

namespace UnitAtlas.Compiler

open Syntax

/-- As that of a function or of a method, the unit shows the parameters of the node as they are
written, if they are in order. -/
def ShowsParameters (n : Node) (v : CodeUnit) : Prop :=
  ∀ (es : List Entry) (kind : UnitKind), n.entries? = some es → Entry.inOrder es = true →
    kind.takesArguments = true → Parameters.display kind v = .ok (Entry.shown es)

/-- So does every unit whose shape has the names that the node declares. -/
theorem showsParameters_of_toUnit {filename : String} {shape : UnitShape} {body : Draft}
    {n : Node} {v : CodeUnit} (h : body.toUnit filename shape = .ok v)
    (hnames : shape.parameters = Reading.declaredNames n) : ShowsParameters n v := by
  intro es kind hes horder hkind
  rw [Draft.display_of_toUnit h hkind, hnames, Reading.shown_declaredNames hes horder,
    Entry.shown]

/-- The unit of each function shows the parameters of its definition as they are written, and so
does the unit of each lambda, whatever the code and the default values are. -/
theorem parameters_are_shown_as_they_are_written (parse : Parser) (source filename : String)
    (root : Node) (u : CodeUnit) (hparse : parse source = some root)
    (hsource : root.isSource = true) (h : compile parse source filename = .ok u) :
    (∀ a d, root.definitionAt? a = some d → d.isClass = false →
      ∃ v, (u.definedAt? a).bind u.at? = some v ∧ ShowsParameters d.node v) ∧
    (∀ n v, MakesLambda filename n v → ShowsParameters n v) ∧
    (root.isScript = true → ∃ ns, ns.Perm root.lambdas ∧
      List.Forall₂ (fun n v => MakesLambda filename n v ∧ ShowsParameters n v) ns u.lambdas) := by
  have hlambda : ∀ n v, MakesLambda filename n v → ShowsParameters n v :=
    fun n v hv => showsParameters_of_toUnit hv rfl
  refine ⟨?_, hlambda, ?_⟩
  · intro a d ha hfunction
    rcases (holds_of_compile hparse hsource h).definedAt? a with ⟨-, hnone⟩ |
      ⟨e, m, p, b, j, v, he, -, -, hdefined, hb, hv, values, shape, body, makes, hparts, hmade⟩
    · rw [hnone] at ha
      cases ha
    · rw [he] at ha
      cases ha
      refine ⟨v, ?_, showsParameters_of_toUnit hmade (hparts.parameters hfunction)⟩
      rw [hdefined, Option.bind_some, CodeUnit.at?_append, hb, Option.bind_some,
        CodeUnit.at?_singleton, hv]
  · intro hscript
    obtain ⟨ns, hperm, hmade⟩ := exists_made_of_compile hparse hscript h
    exact ⟨ns, hperm, hmade.imp fun n v hv => ⟨hv, hlambda n v hv⟩⟩

/-! ### A function and a lambda with parameters of all sorts -/

/-- `def f(a, (b, c), d=0, /, e: t, *args, k, m=0, **rest):` and `pass` on the next line. -/
def functionNode : Node :=
  node none 0 .functionDefinition "" [
    word (some .name) 0 "f",
    node (some .parameters) 0 (.other "parameters") "" [
      word none 0 "a",
      node none 0 .tuplePattern "(b, c)" [word none 0 "b", word none 0 "c"],
      node none 0 .defaultParameter "" [
        word (some .name) 0 "d", node (some .value) 0 .integer "0" []],
      node none 0 (.other "positional_separator") "/" [],
      node none 0 .typedParameter "" [
        word none 0 "e", node none 0 (.other "type") "t" [word none 0 "t"]],
      node none 0 .listSplatPattern "*args" [word none 0 "args"],
      word none 0 "k",
      node none 0 .defaultParameter "" [
        word (some .name) 0 "m", node (some .value) 0 .integer "0" []],
      node none 0 .dictionarySplatPattern "**rest" [word none 0 "rest"]],
    node (some .body) 1 .block "" [node none 1 .passStatement "" []]]

/-- `lambda x, *, k=0: k` on the third line. -/
def lambdaNode : Node :=
  node (some .right) 2 .lambda "" [
    node (some .parameters) 2 (.other "lambda_parameters") "" [
      word none 2 "x",
      node none 2 .keywordSeparator "*" [],
      node none 2 .defaultParameter "" [
        word (some .name) 2 "k", node (some .value) 2 .integer "0" []]],
    word (some .body) 2 "k"]

/-- The function, and the lambda assigned to `n`. -/
def signatureTree : Node :=
  node none 0 (.other "module") "" [
    functionNode,
    node none 2 .expressionStatement "" [
      node none 2 .assignment "" [word (some .left) 2 "n", lambdaNode]]]

def signatureParser : Parser := fun _ => some signatureTree

def functionUnit : CodeUnit :=
  ⟨⟨"f", "m.py", 1, [100, 0, 0, 83], [0, 1], [], ["a", "(b, c)", "d", "e", "k", "m", "args", "rest"],
    4, 2, ⟨12⟩⟩, [.literal .none]⟩

def lambdaUnit : CodeUnit :=
  ⟨⟨"<lambda>", "m.py", 3, [124, 1, 0, 83], [], [], ["x", "k"], 1, 1, .empty⟩, []⟩

def signatureUnit : CodeUnit :=
  ⟨⟨"<module>", "m.py", 1,
      [100, 0, 0, 100, 0, 0, 100, 1, 0, 132, 2, 0, 90, 0, 0, 100, 0, 0, 100, 2, 0, 132, 1, 0,
        90, 1, 0, 100, 3, 0, 83],
      [15, 2], ["f", "n"], [], 0, 0, .empty⟩,
    [.literal (.int 0), .unit functionUnit, .unit lambdaUnit, .literal .none]⟩

set_option maxRecDepth 10000 in
theorem compile_signature : compile signatureParser "" "m.py" = .ok signatureUnit := by
  with_unfolding_all rfl

set_option maxRecDepth 10000 in
theorem makesLambda_lambdaNode : MakesLambda "m.py" lambdaNode lambdaUnit := by
  with_unfolding_all rfl

theorem both_show_what_is_written :
    compile signatureParser "" "m.py" = .ok signatureUnit ∧ signatureTree.isSource = true ∧
      signatureTree.isScript = true ∧
      Parameters.display .method functionUnit = .ok "(a, (b, c), d, e, *args, k, m, **rest)" ∧
      Parameters.display .function lambdaUnit = .ok "(x, *, k)" := by
  have hsource : signatureTree.isSource = true := by decide +kernel
  obtain ⟨hfunctions, hlambdas, -⟩ := parameters_are_shown_as_they_are_written signatureParser ""
    "m.py" signatureTree signatureUnit rfl hsource compile_signature
  refine ⟨compile_signature, hsource, by decide +kernel, ?_, ?_⟩
  · obtain ⟨v, hv, hshows⟩ := hfunctions [0] _ rfl rfl
    cases Option.some.inj hv
    exact hshows _ .method rfl rfl rfl
  · exact hlambdas lambdaNode lambdaUnit makesLambda_lambdaNode _ .function rfl rfl rfl

end UnitAtlas.Compiler
