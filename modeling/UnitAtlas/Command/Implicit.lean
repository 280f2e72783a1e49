-- Command lines without a command: hosts that know no commands start the program with the
-- logs alone. The command to serve is put in for them.
import UnitAtlas.Command.Grammar

namespace UnitAtlas.Implicit

/-- How an argument is looked at in the search for the command. -/
inductive Sight where
  /-- An option with its value behind it. -/
  | pair
  /-- Any other option. -/
  | single
  /-- A call for help or for the version. -/
  | help
  /-- The end of the options. -/
  | last
  /-- No option. -/
  | word
  deriving Repr, DecidableEq

def sight (text : String) : Sight :=
  if text = "--" then .last
  else if text ∈ ["--glue-len", "--signature-len"] then .pair
  else if text ∈ ["-h", "--help", "-V", "--version"] then .help
  else if text.toList.head? = some '-' then .single
  else .word

/-- Whether the arguments say what to do: they ask for help, or the first of them that is no
option is a command. -/
def isExplicit : List String → Bool
  | [] => false
  | text :: rest =>
    match sight text with
    | .last => (rest.head?).any CommandLine.commandWords.contains
    | .help => true
    | .single => isExplicit rest
    | .word => CommandLine.commandWords.contains text
    | .pair =>
      match rest with
      | [] => false
      | _ :: later => isExplicit later

/-- The arguments with a command behind the program's name. -/
def withCommand : List String → List String
  | [] => ["serve"]
  | program :: rest =>
    if isExplicit rest then program :: rest else program :: "serve" :: rest

end UnitAtlas.Implicit
