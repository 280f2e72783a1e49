-- What one level of a command line gives, before the command or after it, gathered argument
-- by argument.
import UnitAtlas.Command.Argument
import UnitAtlas.Command.Basic
import UnitAtlas.Number.Numeral

namespace UnitAtlas

/-- The places of a command line: before the command, or behind one. -/
inductive Level where
  | top
  | serve
  | dump
  deriving Repr, DecidableEq

/-- The options that take a value. -/
inductive ValueOption where
  | glue
  | signatureLength
  | format
  deriving Repr, DecidableEq

namespace ValueOption

def name : ValueOption → String
  | .glue => "glue-len"
  | .signatureLength => "signature-len"
  | .format => "format"

/-- The options of a level. The lengths are for every level. -/
def atLevel : Level → List ValueOption
  | .dump => [.glue, .signatureLength, .format]
  | _ => [.glue, .signatureLength]

def ofName? (level : Level) (name : String) : Option ValueOption :=
  (atLevel level).find? (·.name == name)

/-- The option that a letter stands for. -/
def ofLetter? (level : Level) (letter : Char) : Option ValueOption :=
  if letter = 'f' ∧ ValueOption.format ∈ atLevel level then some .format else none

end ValueOption

/-- What a level gives. -/
structure Given where
  values : List String := []
  glue : Option Nat := none
  signatureLength : Option Nat := none
  format : Option ReportFormat := none
  noHandshake : Bool := false
  deriving Repr, DecidableEq

namespace Given

/-- A value for a place that takes only one. -/
def fill {α : Type} (old new : Option α) : Except Refusal (Option α) :=
  match old, new with
  | none, some a => .ok (some a)
  | _, _ => .error .badUsage

/-- Sets an option. Each may be given only once. -/
def set (g : Given) (o : ValueOption) (text : String) : Except Refusal Given :=
  match o with
  | .glue => do return { g with glue := ← fill g.glue (Numeral.word text).toOption }
  | .signatureLength => do
    return { g with signatureLength := ← fill g.signatureLength (Numeral.word text).toOption }
  | .format => do return { g with format := ← fill g.format (ReportFormat.ofWord? text) }

/-- Whether a level has a place for one more value. -/
def hasPlace (g : Given) : Level → Bool
  | .top => false
  | .serve => g.values.length < 2
  | .dump => true

/-- Adds a value, which must be a path. -/
def add (g : Given) (level : Level) (text : String) : Except Refusal Given :=
  if text ≠ "" ∧ g.hasPlace level then .ok { g with values := g.values ++ [text] }
  else .error .badUsage

def skipHandshake (g : Given) : Except Refusal Given :=
  if g.noHandshake then .error .badUsage else .ok { g with noHandshake := true }

end Given

/-! ## Gathering -/

/-- What was gathered so far. `awaiting` is an option whose value comes next, `unchecked` one
whose value was the argument before: it is looked at only when the level goes on. -/
structure Gathering where
  given : Given := {}
  awaiting : Option ValueOption := none
  unchecked : Option (ValueOption × String) := none
  onlyValues : Bool := false
  deriving Repr, DecidableEq

namespace Gathering

/-- Looks at the value that was not looked at yet. -/
def settle (g : Gathering) : Except Refusal Gathering :=
  match g.unchecked with
  | none => .ok g
  | some (o, text) => do return { g with given := ← g.given.set o text, unchecked := none }

/-- An option with a value attached, or without one. -/
def option (g : Gathering) (o : ValueOption) (attached : Option String) :
    Except Refusal Gathering :=
  match attached with
  | none => .ok { g with awaiting := some o }
  | some text => do return { g with given := ← g.given.set o text }

def long (g : Gathering) (level : Level) (name : String) (attached : Option String) :
    Except Refusal Gathering :=
  match ValueOption.ofName? level name with
  | some o => g.option o attached
  | none =>
    if attached.isSome then .error .badUsage
    else if name = "help" then .error .helpAsked
    else if name = "no-handshake" ∧ level = .serve then do
      return { g with given := ← g.given.skipHandshake }
    else .error .badUsage

/-- What is attached to a letter; an equals sign before it does not count. -/
def attachedTo (rest : String) : Option String :=
  match rest.toList with
  | [] => none
  | '=' :: cs => some (String.ofList cs)
  | cs => some (String.ofList cs)

def short (g : Gathering) (level : Level) (letter : Char) (rest : String) :
    Except Refusal Gathering :=
  if letter = 'h' then .error .helpAsked
  else
    match ValueOption.ofLetter? level letter with
    | some o => g.option o (attachedTo rest)
    | none => .error .badUsage

/-- An argument where none is awaited. -/
def argument (g : Gathering) (level : Level) : Argument → Except Refusal Gathering
  | .value text => do return { g with given := ← g.given.add level text }
  | .endOfOptions => .ok { g with onlyValues := true }
  | .long name attached => g.long level name attached
  | .short letter rest => g.short level letter rest

/-- One more argument. -/
def step (level : Level) (g : Gathering) (text : String) : Except Refusal Gathering :=
  match g.awaiting with
  | some o =>
    match Argument.ofText text with
    | .value text => .ok { g with awaiting := none, unchecked := some (o, text) }
    | _ => .error .badUsage
  | none => do
    let g ← g.settle
    if g.onlyValues then return { g with given := ← g.given.add level text }
    g.argument level (Argument.ofText text)

/-- What the level gives when it ends. -/
def finish (g : Gathering) : Except Refusal Given := do
  if g.awaiting.isSome then .error .badUsage
  return (← g.settle).given

end Gathering

/-- What the arguments of a level give. -/
def Given.ofArguments (level : Level) (arguments : List String) : Except Refusal Given := do
  (← arguments.foldlM (Gathering.step level) {}).finish

end UnitAtlas
