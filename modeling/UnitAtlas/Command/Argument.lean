-- Arguments by their looks: options start with a hyphen, and all else is a value.

namespace UnitAtlas

/-- What an argument looks like, where options count. -/
inductive Argument where
  /-- A value; a hyphen alone is one too. -/
  | value (text : String)
  /-- `--`: after it options do not count. -/
  | endOfOptions
  /-- `--name` or `--name=value`. -/
  | long (name : String) (attached : Option String)
  /-- `-x`, with whatever is behind the letter. -/
  | short (letter : Char) (rest : String)
  deriving Repr, DecidableEq

namespace Argument

/-- A name and what follows the first equals sign behind it. -/
def splitName (cs : List Char) : String × Option String :=
  let name := cs.takeWhile (· != '=')
  match cs.drop name.length with
  | [] => (String.ofList name, none)
  | _ :: rest => (String.ofList name, some (String.ofList rest))

def ofText (text : String) : Argument :=
  match text.toList with
  | ['-', '-'] => .endOfOptions
  | '-' :: '-' :: cs => let (name, attached) := splitName cs; .long name attached
  | '-' :: letter :: cs => .short letter (String.ofList cs)
  | _ => .value text

end Argument

end UnitAtlas
