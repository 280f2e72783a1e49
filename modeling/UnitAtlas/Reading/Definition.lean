-- Definitions of functions and classes: the code that builds the unit of the body in its
-- parent and binds it to its name.
import UnitAtlas.Reading.Target

namespace UnitAtlas.Reading

open Syntax

/-! ## Docstrings -/

/-- The docstring of a suite: its first statement, when that is a string alone. -/
def docstring : List Reading → Option String
  | [] => none
  | first :: _ =>
    match first.kind, first.place.named with
    | .expressionStatement, [inner] =>
      if inner.kind = .string ∨ inner.kind = .concatenatedString then some inner.text else none
    | _, _ => none

/-- The line of the first statement of a suite. -/
def firstStatementLine (statements : List Reading) : Draft :=
  match statements.head? with
  | some first => .line first.line
  | none => .skip

def statements (rs : List Reading) : Draft := Draft.all (rs.map (·.roles.statement))

/-- The suite of a module or a class body. A docstring is stored under its own name. -/
def namespaceSuite (rs : List Reading) : Draft :=
  match docstring rs with
  | some doc =>
    firstStatementLine rs ++ .literal (.str doc) ++ .store "__doc__" ++ statements rs.tail
  | none => statements rs

/-! ## Units -/

/-- Leaves the unit with no other value than `None`. -/
def returnNone : Draft := .literal .none ++ .plain .returnValue

/-- The unit of a function. The docstring, or `None`, is the first of its constants. -/
def functionUnit (name : String) (line : UInt32) (names : ParameterNames) (body : Reading) :
    Draft :=
  let rs := body.place.named
  let doc := docstring rs
  let code := match doc with
    | some _ => firstStatementLine rs ++ statements rs.tail
    | none => statements rs
  .unit
    { name := name, firstLine := line, scope := .function, parameters := names,
      consts := [(doc.map Literal.str).getD .none] }
    (code ++ returnNone)

/-- The unit of a class body: it leaves its local names as its value. -/
def classUnit (name : String) (line : UInt32) (body : Reading) : Draft :=
  .unit { name := name, firstLine := line, scope := .classBody }
    (.load "__name__" ++ .store "__module__" ++ namespaceSuite body.place.named
      ++ .plain .loadLocals ++ .plain .returnValue)

/-- The unit of a whole source. -/
def moduleDraft (root : Place Reading) : Draft := namespaceSuite root.named ++ returnNone

def moduleShape : UnitShape := { name := "<module>", firstLine := 1, scope := .module }

/-! ## Decorators -/

/-- The values of all decorators, in order. -/
def decoratorValues (decorators : List Reading) : Draft :=
  Draft.all (decorators.map (·.place.operands))

/-- Each decorator is called with what the next one gave. -/
def applyDecorators (decorators : List Reading) : Draft :=
  Draft.all (decorators.map fun _ => .counted .callFunction 1)

/-- A definition starts at its first decorator. -/
def definitionLine (p : Place Reading) (decorators : List Reading) : UInt32 :=
  ((decorators.head?).map (·.line)).getD p.line

/-! ## The statements -/

def functionDefinition (p : Place Reading) (decorators : List Reading) : Draft :=
  p.withText .name fun name =>
    let declared := Declaration.ofList (p.field? .parameters)
    decoratorValues decorators ++ declared.defaultValues ++
      Draft.need (p.field? .body) (.missingBody p.line name) fun body =>
        functionUnit name (definitionLine p decorators) declared.names body
          ++ .counted .makeFunction declared.defaults.length
          ++ applyDecorators decorators ++ .store name

/-- The bases of a class, without what is given by keyword. -/
def bases (p : Place Reading) : List Reading :=
  match p.field? .superclasses with
  | some r => r.place.named.filter (·.kind != .keywordArgument)
  | none => []

def classDefinition (p : Place Reading) (decorators : List Reading) : Draft :=
  p.withText .name fun name =>
    decoratorValues decorators ++ .literal (.str name)
      ++ Draft.all ((bases p).map (·.roles.value)) ++ .counted .buildTuple (bases p).length ++
      Draft.need (p.field? .body) (.missingBody p.line name) fun body =>
        classUnit name (definitionLine p decorators) body
          ++ .counted .makeFunction 0 ++ .counted .callFunction 0 ++ .plain .buildClass
          ++ applyDecorators decorators ++ .store name

/-- A definition under its decorators. -/
def decoratedDefinition (p : Place Reading) : Draft :=
  let decorators := p.named.filter (·.kind == .decorator)
  Draft.need (p.field? .definition) (.lacks "decorated definition" .definition) fun r =>
    if r.kind = .classDefinition then classDefinition r.place decorators
    else functionDefinition r.place decorators

end UnitAtlas.Reading
