-- Compound statements: branches, loops, handlers and managed blocks, with their jumps.
import UnitAtlas.Reading.Definition

namespace UnitAtlas.Reading

open Syntax

/-- What a statement that no rule knows does with its children: suites are run, clauses
opened, and everything else is a value that is dropped. -/
def suite (p : Place Reading) : Draft :=
  Draft.all (p.named.map fun r =>
    if r.kind = .block then r.place.block
    else if r.kind.isClause then r.roles.suite
    else r.roles.value ++ .plain .popTop)

/-- The body of an `else`. -/
def elseBody (clause : Reading) : Draft :=
  match clause.place.field? .body with
  | some body => body.place.block
  | none => clause.roles.suite

def blockOf (part : Option Reading) : Draft := optional part (·.place.block)

/-! ## Branches -/

/-- `then` to be run only if the value on the stack holds. When more alternatives follow, it
ends by jumping over them, out of the block around all of them. -/
def branch (body : Draft) (more : Bool) : Draft :=
  .block (.jump .popIfFalse 0 ++ body ++ if more then .jump .forward 1 else .skip)

/-- The alternatives of an `if`, inside the block whose end they all reach. -/
def alternatives : List Reading → Draft
  | [] => .skip
  | r :: rest =>
    .line r.line ++
      if r.kind = .elifClause then
        Draft.need (r.place.field? .condition) (.lacks "elif" .condition) fun condition =>
          condition.roles.value
            ++ branch (blockOf (r.place.field? .consequence)) (!rest.isEmpty)
            ++ alternatives rest
      else
        elseBody r ++ (if rest.isEmpty then .skip else .jump .forward 0) ++ alternatives rest

def ifStatement (p : Place Reading) : Draft :=
  let others := p.fields .alternative
  Draft.need (p.field? .condition) (.lacks "if" .condition) fun condition =>
    condition.roles.value ++
      .block (branch (blockOf (p.field? .consequence)) (!others.isEmpty) ++ alternatives others)

/-! ## Loops -/

/-- The part of a loop that is run again and again: it starts with `test`, and `exit` leaves
it. -/
def repeated (test : Draft) (exit : Opcode.Jump) (body : Draft) : Draft :=
  .loop (.block (test ++ .jump exit 0 ++ body ++ .again) ++ .plain .popBlock)

def whileStatement (p : Place Reading) : Draft :=
  .block (.jump .setupLoop 0 ++
    Draft.need (p.field? .condition) (.lacks "while" .condition) fun condition =>
      repeated condition.roles.value .popIfFalse (blockOf (p.field? .body))
        ++ optional (p.field? .alternative) elseBody)

def forStatement (p : Place Reading) : Draft :=
  .block (.jump .setupLoop 0 ++
    Draft.need (p.field? .right) (.lacks "for" .iterable) fun iterable =>
      iterable.roles.value ++ .plain .getIterator
        ++ repeated .skip .forIterator
          (Draft.need (p.field? .left) (.lacks "for" .target) fun element =>
            element.roles.target ++ blockOf (p.field? .body))
        ++ optional (p.field? .alternative) elseBody)

/-! ## Handlers -/

/-- The code of a comparison in the table of comparisons: a match of exceptions. -/
def exceptionMatch : Nat := 10

/-- What an exception handler catches, and the name it gives to it. -/
structure Catch where
  type : Option Reading
  name : Option Reading

/-- The catch of a handler, from its parts that are no suites. -/
def catchOf : List Reading → Option Catch
  | [] => none
  | r :: rest =>
    if r.kind = .asPattern then some ⟨r.place.named.head?, r.place.field? .asName⟩
    else some ⟨some r, rest.head?⟩

/-- The suites of a handler. -/
def handlerSuites (parts : List Reading) : Draft :=
  Draft.all ((parts.filter (·.kind == .block)).map (·.place.block))

/-- A handler. Its suites end by jumping behind the whole statement, the block outside of
the one that holds the handlers. A handler without a type catches everything. -/
def handler (r : Reading) : Draft :=
  let parts := r.place.named
  .line r.line ++
    match catchOf (parts.filter (·.kind != .block)) with
    | some caught =>
      .plain .dupTop ++ optional caught.type (·.roles.value) ++ .counted .compare exceptionMatch
        ++ .block (.jump .popIfFalse 0 ++ .plain .popTop ++ storeOrDrop caught.name
          ++ .plain .popTop ++ handlerSuites parts ++ .jump .forward 2)
    | none =>
      .plain .popTop ++ .plain .popTop ++ .plain .popTop ++ handlerSuites parts
        ++ .jump .forward 1

/-- A body under handlers, and the `else` that is run when it went well. -/
def guarded (body : Draft) (handlers : List Reading) (otherwise : Draft) : Draft :=
  .block
    (.block
      (.block (.jump .setupExcept 0 ++ body ++ .plain .popBlock ++ .jump .forward 1)
        ++ Draft.all (handlers.map handler) ++ .plain .endFinally)
      ++ otherwise)

def isHandler (r : Reading) : Bool := r.kind == .exceptClause || r.kind == .exceptGroupClause

/-- The body of a `try` with its handlers. Without a handler there is no `else` either. -/
def handledBody (p : Place Reading) : Draft :=
  let body := blockOf (p.field? .body)
  let handlers := p.named.filter isHandler
  if handlers.isEmpty then body
  else guarded body handlers (optional (p.named.find? (·.kind == .elseClause)) elseBody)

def tryStatement (p : Place Reading) : Draft :=
  match p.named.find? (·.kind == .finallyClause) with
  | none => handledBody p
  | some clause =>
    .block (.jump .setupFinally 0 ++ handledBody p ++ .plain .popBlock ++ .literal .none)
      ++ .line clause.line ++ clause.roles.suite ++ .plain .endFinally

/-! ## Managed blocks -/

/-- `inner` under a manager on the stack, whose result `bind` takes. -/
def managed (bind inner : Draft) : Draft :=
  .block (.jump .setupWith 0 ++ bind ++ inner ++ .plain .popBlock ++ .literal .none)
    ++ .plain .withCleanup ++ .plain .endFinally

/-- One item of a `with`, around `inner`. -/
def withItem (inner : Draft) (item : Reading) : Draft :=
  let value := (item.place.field? .value).or item.place.named.head?
  Draft.need value (.lacks "with item" .value) fun v =>
    if v.kind = .asPattern then
      optional v.place.named.head? (·.roles.value)
        ++ managed (storeOrDrop (v.place.field? .asName)) inner
    else v.roles.value ++ managed (.plain .popTop) inner

def withStatement (p : Place Reading) : Draft :=
  let items := match p.named.find? (·.kind == .withClause) with
    | some clause => clause.place.named
    | none => []
  items.foldr (fun item inner => withItem inner item) (blockOf (p.field? .body))

end UnitAtlas.Reading
