-- The query service: after an optional handshake, each line of the input is a request and is
-- answered by one frame. What goes wrong with a request stays with it: the answer is then
-- a frame that says so, and the session goes on. An empty line or the end of the input
-- ends it.
import UnitAtlas.Session.Input
import UnitAtlas.Session.Log
import UnitAtlas.Session.Lookup
import UnitAtlas.Source.Analysis
import UnitAtlas.Wire.Response

namespace UnitAtlas

/-- Which writes and which flushes a sink refuses, counted from 0. -/
structure Sink where
  refusesWrite : Nat → Bool := fun _ => false
  refusesFlush : Nat → Bool := fun _ => false

/-- What a service is made of. Everything written, and a report of every failure, is copied
to the output log; every line read is copied to the input log. -/
structure Service where
  backend : Backend
  classifier : Classifier
  sink : Sink := {}
  outputLog : Option LogFile := none
  inputLog : Option LogFile := none

/-- How far a session has come: the lines still to be read, what was written so far, frame
by frame, and the files and the lookup environment as they are now. -/
structure Session where
  files : FileSystem
  input : List Bytes
  env : LookupEnv := {}
  frames : List Bytes := []

/-- A session that has read nothing yet. -/
def Session.ofInput (files : FileSystem) (input : Bytes) : Session :=
  { files := files, input := Lines.raw input }

namespace Service

/-! ## Answers -/

/-- The response to a request, or why there is none. A panic ends only the request. -/
def tryAnswer (s : Service) (files : FileSystem) (env : LookupEnv) (request : String) :
    Except ErrorChain Response :=
  match env.resolve files request with
  | none => .ok .missing
  | some path =>
    match Source.analyze s.backend s.classifier files path with
    | .ok entities => .ok (.ofEntities entities)
    | .error (.error chain) => .error chain
    | .error (.panic message) => .error ⟨s!"panicked: {message}", []⟩

/-- The frame to write for a request, and what there is to report about it. -/
def frameFor (s : Service) (files : FileSystem) (env : LookupEnv) (request : String) :
    Bytes × Option ErrorChain :=
  match s.tryAnswer files env request with
  | .error chain => (Wire.int32 (-1), some chain)
  | .ok response =>
    match response.encode with
    | .ok frame => (frame, none)
    | .error e => (Wire.int32 (-1), some e.chain)

/-! ## Reports -/

/-- How a failure is told in the output log. -/
def failureReport (request : String) (chain : ErrorChain) : String :=
  s!"\nrequest: {request}\nerror: {chain.message}\n"
    ++ String.join (chain.causes.map fun cause => s!"caused by: {cause}\n")
    ++ String.ofList (List.replicate 20 '-') ++ "\n"

def report (s : Service) (request : String) (failure : Option ErrorChain)
    (files : FileSystem) : FileSystem :=
  match failure with
  | none => files
  | some chain => LogFile.note s.outputLog files (Utf8.encode (failureReport request chain))

/-- The response to a request asked outside of a session. A failure is reported. -/
def answer (s : Service) (files : FileSystem) (env : LookupEnv) (request : String) :
    Response × FileSystem :=
  match s.tryAnswer files env request with
  | .ok response => (response, files)
  | .error chain => (.failed, s.report request (some chain) files)

/-! ## Reading and writing -/

/-- Reads a line; none at the end of the input. -/
def readLine (s : Service) (st : Session) : Except ErrorChain (Option String) × Session :=
  let (line, rest) := Input.next st.input
  let after := { st with input := rest }
  match line with
  | .ok (some text) =>
    (line, { after with files := LogFile.note s.inputLog st.files (Utf8.encode (text ++ "\n")) })
  | _ => (line, after)

/-- Writes a frame as a whole and flushes it. The copy in the log comes first. -/
def writeFrame (s : Service) (frame : Bytes) (st : Session) : Except ErrorChain Unit × Session :=
  let logged := { st with files := LogFile.note s.outputLog st.files frame }
  if s.sink.refusesWrite st.frames.length then
    (.error ⟨"Failed to write frame", ["sink closed"]⟩, logged)
  else
    let written := { logged with frames := st.frames ++ [frame] }
    if s.sink.refusesFlush st.frames.length then
      (.error ⟨"Failed to flush frame", ["flush refused"]⟩, written)
    else (.ok (), written)

/-! ## The handshake -/

/-- Reads up to `count` lines; at the end of the input they are empty. -/
def readLines (s : Service) : Nat → Session → Except ErrorChain (List String) × Session
  | 0, st => (.ok [], st)
  | count + 1, st =>
    match s.readLine st with
    | (.error chain, after) => (.error chain, after)
    | (.ok line, after) =>
      match s.readLines count after with
      | (.error chain, last) => (.error chain, last)
      | (.ok lines, last) => (.ok (line.getD "" :: lines), last)

/-- The handshake that four lines make. -/
def handshakeOf (lines : List String) : Handshake :=
  ⟨lines[0]?.getD "", lines[1]?.getD "", lines[2]?.getD "", lines[3]?.getD ""⟩

/-- What stands for the request in a report about the handshake. -/
def handshakeName : String := "<handshake>"

/-- Reads a handshake, applies it, and answers with a status. -/
def handshake (s : Service) (st : Session) : Except ErrorChain Unit × Session :=
  match s.readLines 4 st with
  | (.error chain, after) => (.error chain, after)
  | (.ok lines, after) =>
    let (env, outcome) := after.env.apply after.files (handshakeOf lines)
    match s.writeFrame (Wire.status outcome.toBool) { after with env := env } with
    | (.error chain, last) => (.error chain, last)
    | (.ok (), last) =>
      match outcome with
      | .ok () => (.ok (), last)
      | .error e =>
        (.ok (), { last with files := s.report handshakeName (some e.chain) last.files })

/-! ## The session -/

/-- Answers one request. -/
def serveRequest (s : Service) (request : String) (st : Session) :
    Except ErrorChain Unit × Session :=
  let (frame, failure) := s.frameFor st.files st.env request
  match s.writeFrame frame st with
  | (.error chain, after) => (.error chain, after)
  | (.ok (), after) => (.ok (), { after with files := s.report request failure after.files })

/-- Answers the requests in `lines`, which are the input that is left. -/
def serveLines (s : Service) : List Bytes → Session → Except ErrorChain Unit × Session
  | [], st => (.ok (), st)
  | raw :: rest, st =>
    match s.readLine { st with input := raw :: rest } with
    | (.error chain, after) => (.error chain, after)
    | (.ok none, after) => (.ok (), after)
    | (.ok (some request), after) =>
      if request = "" then (.ok (), after)
      else
        match s.serveRequest request after with
        | (.error chain, last) => (.error chain, last)
        | (.ok (), last) => s.serveLines rest last

/-- Answers all requests up to an empty line or the end of the input. -/
def serve (s : Service) (st : Session) : Except ErrorChain Unit × Session :=
  s.serveLines st.input st

/-- A whole session. -/
def run (s : Service) (withHandshake : Bool) (st : Session) : Except ErrorChain Unit × Session :=
  if withHandshake then
    match s.handshake st with
    | (.error chain, after) => (.error chain, after)
    | (.ok (), after) => s.serve after
  else s.serve st

/-! ## Setting up -/

/-- Sets up the log at a path, if there is one. -/
def createLog (fs : FileSystem) : Option String → Except ErrorChain (Option LogFile × FileSystem)
  | none => .ok (none, fs)
  | some path => (LogFile.create fs path).map fun (log, after) => (some log, after)

/-- The service with its logs set up, the output log first. -/
def withLogs (s : Service) (fs : FileSystem) (outputLog inputLog : Option String) :
    Except ErrorChain (Service × FileSystem) := do
  let (output, fs) ← createLog fs outputLog
  let (input, fs) ← createLog fs inputLog
  return ({ s with outputLog := output, inputLog := input }, fs)

end Service

end UnitAtlas
