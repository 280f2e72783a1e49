-- What a command line asks for.

namespace UnitAtlas

/-- How a report is printed. -/
inductive ReportFormat where
  | text
  | json
  deriving Repr, DecidableEq

namespace ReportFormat

def word : ReportFormat → String
  | .text => "text"
  | .json => "json"

/-- The format that a word names. -/
def ofWord? (w : String) : Option ReportFormat :=
  [text, json].find? fun format => format.word = w

end ReportFormat

/-- A command with what belongs to it alone. -/
inductive Command where
  /-- Answer requests, with logs of what was written and of what was read. -/
  | serve (outputLog inputLog : Option String) (noHandshake : Bool)
  /-- Report the entities of files and directories. -/
  | dump (paths : List String) (format : ReportFormat)
  deriving Repr, DecidableEq

/-- A command line that was understood. -/
structure CommandLine where
  command : Command
  glue : Option Nat
  signatureLength : Option Nat
  deriving Repr, DecidableEq

/-- Why a command line leads to no command. -/
inductive Refusal where
  | badUsage
  | helpAsked
  deriving Repr, DecidableEq

/-- What a program that refuses its command line ends with. -/
def Refusal.exitCode : Refusal → Nat
  | .badUsage => 2
  | .helpAsked => 0

end UnitAtlas
