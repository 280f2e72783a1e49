-- The program as a whole: from its arguments, its environment, its input and the files to
-- what it writes and how it ends.
import UnitAtlas.Command.Implicit
import UnitAtlas.Command.Settings
import UnitAtlas.Compiler
import UnitAtlas.Report.Collect
import UnitAtlas.Report.Json
import UnitAtlas.Report.Text
import UnitAtlas.Session.Service

namespace UnitAtlas

/-- How the program ends. -/
structure Ending where
  exitCode : Nat
  output : Bytes := []
  errors : String := ""

/-- What a command line comes to once the program is ready. -/
inductive Plan where
  /-- Nothing is left to do. -/
  | finished (ending : Ending)
  /-- Requests are to be answered, after a handshake or not. -/
  | service (s : Service) (withHandshake : Bool) (files : FileSystem)

namespace Program

/-! ## Endings -/

def refused (r : Refusal) : Ending := { exitCode := r.exitCode }

/-- The end after a failure, with what was written before. -/
def failed (output : Bytes) (chain : ErrorChain) : Ending :=
  { exitCode := 1, output := output, errors := s!"Error: {chain.report}\n" }

/-- The end after a panic. -/
def panicked (message : String) : Ending := { exitCode := 101, errors := message ++ "\n" }

/-! ## Getting ready -/

/-- Settings and signature, or why there are none. -/
def classifier (backend : Backend) (env : Environment) (line : CommandLine) :
    Except (Fault ErrorChain) Classifier := do
  let settings ← Fault.ofError (Settings.resolve env line)
  Fault.rename (fun e => .under "Failed to calibrate the class signature" ⟨e.message, []⟩)
    (Calibration.classifier backend settings.glue settings.signatureLength)

/-- Whether a host waits for the status of a handshake. -/
def awaitsStatus : Command → Bool
  | .serve _ _ noHandshake => !noHandshake
  | .dump _ _ => false

/-- What is written when there is no classifier: a host that waits for a status gets one. -/
def lastWords (command : Command) : Bytes :=
  if awaitsStatus command then Wire.status false else []

/-! ## Commands -/

/-- What a report prints. It ends with a line feed. -/
def content (format : ReportFormat) (reports : List FileReport) : String :=
  let text := match format with
    | .text => FileReport.textOfAll reports
    | .json => FileReport.jsonOfAll reports
  if text.endsWith "\n" then text else text ++ "\n"

def dump (backend : Backend) (c : Classifier) (fs : FileSystem) (paths : List String)
    (format : ReportFormat) : Ending :=
  match Collect.collect fs (Walk.sources fs) paths with
  | .error missing => failed [] ⟨missing.message, []⟩
  | .ok files =>
    match FileReport.ofFiles backend c fs files with
    | .error message => panicked message
    | .ok reports => { exitCode := 0, output := Utf8.encode (content format reports) }

def serve (backend : Backend) (c : Classifier) (fs : FileSystem)
    (outputLog inputLog : Option String) (withHandshake : Bool) : Plan :=
  match Service.withLogs { backend := backend, classifier := c } fs outputLog inputLog with
  | .error chain => .finished (failed [] chain)
  | .ok (service, ready) => .service service withHandshake ready

/-- What a command comes to. -/
def command (backend : Backend) (c : Classifier) (fs : FileSystem) : Command → Plan
  | .serve outputLog inputLog noHandshake => serve backend c fs outputLog inputLog !noHandshake
  | .dump paths format => .finished (dump backend c fs paths format)

/-- What a command line that was understood comes to. -/
def prepare (backend : Backend) (env : Environment) (fs : FileSystem) (line : CommandLine) :
    Plan :=
  match classifier backend env line with
  | .ok c => command backend c fs line.command
  | .error (.error chain) => .finished (failed (lastWords line.command) chain)
  | .error (.panic message) => .finished (panicked message)

/-! ## The program -/

/-- What the arguments, the first of which is the program's name, come to. -/
def plan (backend : Backend) (arguments : List String) (env : Environment) (fs : FileSystem) :
    Plan :=
  match CommandLine.ofArguments (Implicit.withCommand arguments) with
  | .error r => .finished (refused r)
  | .ok line => prepare backend env fs line

/-- How a session ends the program. -/
def endingOf (outcome : Except ErrorChain Unit) (st : Session) : Ending :=
  match outcome with
  | .ok () => { exitCode := 0, output := st.frames.flatten }
  | .error chain => failed st.frames.flatten chain

/-- Runs the program on a whole input. -/
def run (backend : Backend) (arguments : List String) (env : Environment) (input : Bytes)
    (fs : FileSystem) : Ending :=
  match plan backend arguments env fs with
  | .finished ending => ending
  | .service s withHandshake ready =>
    let (outcome, last) := s.run withHandshake (Session.ofInput ready input)
    endingOf outcome last

end Program

end UnitAtlas
