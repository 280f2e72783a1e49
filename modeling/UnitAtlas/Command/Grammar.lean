-- The grammar of command lines: the program's name, options, a command, and what belongs to
-- the command. The lengths may stand on either side of the command; behind it they count
-- before those in front of it. Help is given as soon as it is asked for.
import UnitAtlas.Command.Given

namespace UnitAtlas.CommandLine

/-- The words that commands start with. -/
def commandWords : List String := ["serve", "dump", "help"]

/-! ## Commands -/

def serveCommand (arguments : List String) : Except Refusal (Command × Given) := do
  let given ← Given.ofArguments .serve arguments
  return (.serve given.values[0]? given.values[1]? given.noHandshake, given)

def dumpCommand (arguments : List String) : Except Refusal (Command × Given) := do
  let given ← Given.ofArguments .dump arguments
  if given.values.isEmpty then .error .badUsage
  return (.dump given.values (given.format.getD .text), given)

/-- Help may be asked for about one command. -/
def helpRefusal : List String → Refusal
  | [] => .helpAsked
  | [word] => if word ∈ commandWords then .helpAsked else .badUsage
  | _ => .badUsage

/-- The command that a word starts, with its arguments. -/
def commandOf (word : String) (arguments : List String) : Except Refusal (Command × Given) :=
  if word = "serve" then serveCommand arguments
  else if word = "dump" then dumpCommand arguments
  else .error (helpRefusal arguments)

/-! ## The whole line -/

/-- Whether an argument starts the command. -/
def startsCommand (g : Gathering) (text : String) : Bool :=
  g.awaiting.isNone && !g.onlyValues && commandWords.contains text

/-- The command line from the options in front of the command on. -/
def ofRest (g : Gathering) : List String → Except Refusal CommandLine
  | [] => .error .badUsage
  | text :: rest =>
    if startsCommand g text then do
      let (command, own) ← commandOf text rest
      let top ← g.finish
      return ⟨command, own.glue <|> top.glue, own.signatureLength <|> top.signatureLength⟩
    else do ofRest (← g.step .top text) rest

/-- The command line that arguments stand for. The first one is the program's name. -/
def ofArguments (arguments : List String) : Except Refusal CommandLine :=
  ofRest {} (arguments.drop 1)

end UnitAtlas.CommandLine
