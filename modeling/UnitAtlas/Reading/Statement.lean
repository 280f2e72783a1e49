-- Statements: imports and the other simple ones, and which rule is for which kind.
import UnitAtlas.Reading.Compound

namespace UnitAtlas.Reading

open Syntax

/-! ## Imports -/

/-- The parts of a dotted name. -/
def dottedParts (module : String) : List String := module.splitOn "."

/-- Imports a module and binds the package that holds it. -/
def importPlain (module : String) : Draft :=
  .named .importName module ++ .store ((dottedParts module).headD module)

/-- Imports a module and binds the module itself, reached from its package. -/
def importAs (module name : String) : Draft :=
  .named .importName module
    ++ Draft.all ((dottedParts module).tail.map (.named .loadAttribute ·)) ++ .store name

/-- Where an import looks, before the names it wants. -/
def importLevel : Draft := .literal (.int (-1))

def importItem (r : Reading) : Draft :=
  if r.kind = .aliasedImport then
    r.place.withText .name fun module =>
    r.place.withText .asName fun name =>
      importLevel ++ .literal .none ++ importAs module name
  else importLevel ++ .literal .none ++ importPlain r.text

def importStatement (p : Place Reading) : Draft := Draft.all ((p.fields .name).map importItem)

/-- One name taken from a module. -/
def importedName (r : Reading) : Draft :=
  if r.kind = .aliasedImport then
    r.place.withText .name fun wanted =>
    r.place.withText .asName fun name => .named .importFrom wanted ++ .store name
  else .named .importFrom r.text ++ .store r.text

/-- Names taken from a module, or all of them. -/
def importFrom (module : String) (p : Place Reading) : Draft :=
  importLevel ++
    if p.named.any (·.kind == .wildcardImport) then
      .literal (.str "*") ++ .named .importName module ++ .plain .importStar
    else
      .literal .none ++ .named .importName module
        ++ Draft.all ((p.fields .name).map importedName) ++ .plain .popTop

/-! ## Other simple statements -/

/-- One expression of an expression statement. -/
def expressionPart (r : Reading) : Draft :=
  match r.kind with
  | .assignment => assignment r.roles.assignment
  | .augmentedAssignment => augmentedAssignment r.place
  | _ => r.roles.value ++ .plain .popTop

def expressionStatement (p : Place Reading) : Draft := Draft.all (p.named.map expressionPart)

/-- The message is made only if the condition fails. -/
def assertStatement (p : Place Reading) : Draft :=
  match p.named with
  | [] => .skip
  | condition :: rest =>
    condition.roles.value ++
      .block (.jump .popIfTrue 0 ++ .named .loadGlobal "AssertionError"
        ++ optional rest.head? (fun message => message.roles.value ++ .counted .callFunction 1)
        ++ .counted .raiseVarArgs 1)

/-- One thing to delete. -/
def deletion (r : Reading) : Draft :=
  match r.kind with
  | .identifier => .access .delete r.text
  | .attributeAccess => attributeOf .deleteAttribute r.place
  | .subscript => r.place.operands ++ .plain .deleteSubscript
  | _ => r.roles.value ++ .plain .popTop

/-- The things a `del` names: the entries of its list, if it has one. -/
def deletedParts (p : Place Reading) : List Reading :=
  match p.named with
  | [r] => if r.kind = .expressionList then r.place.named else [r]
  | rs => rs

def deleteStatement (p : Place Reading) : Draft := Draft.all ((deletedParts p).map deletion)

def printStatement (p : Place Reading) : Draft :=
  Draft.all (p.named.map fun r => r.roles.value ++ .plain .printItem) ++ .plain .printNewline

/-! ## All kinds -/

/-- The code of a statement after its line is set. -/
def statementBody (p : Place Reading) : Draft :=
  match p.kind with
  | .functionDefinition => functionDefinition p []
  | .classDefinition => classDefinition p []
  | .decoratedDefinition => decoratedDefinition p
  | .expressionStatement => expressionStatement p
  | .returnStatement => firstValue p ++ .plain .returnValue
  | .passStatement => .skip
  | .breakStatement => .plain .breakLoop
  | .continueStatement => .continueLoop
  | .ifStatement => ifStatement p
  | .whileStatement => whileStatement p
  | .forStatement => forStatement p
  | .tryStatement => tryStatement p
  | .withStatement => withStatement p
  | .importStatement => importStatement p
  | .importFromStatement => p.withText .moduleName fun module => importFrom module p
  | .futureImportStatement => importFrom "__future__" p
  | .globalStatement => Draft.all (p.named.map fun r => .declareGlobal r.text)
  | .nonlocalStatement => .skip
  | .raiseStatement => collection .raiseVarArgs p
  | .assertStatement => assertStatement p
  | .deleteStatement => deleteStatement p
  | .printStatement => printStatement p
  | .execStatement => p.operands ++ .plain .execStatement
  | _ => suite p

def statement (p : Place Reading) : Draft := .line p.line ++ statementBody p

end UnitAtlas.Reading
