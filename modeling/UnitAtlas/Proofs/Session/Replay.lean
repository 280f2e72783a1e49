-- What the logs of a session hold, told from the text of its input. The output log holds each frame
-- and behind it the report of the failure, if there was one; the input log holds the lines that
-- were read. So a session whose input is the input log of another asks for the same.
import UnitAtlas.Proofs.Files.LogFiles
import UnitAtlas.Proofs.Session.Events
import UnitAtlas.Proofs.Text.Trimmed

namespace UnitAtlas

namespace Event

/-! ## What an event leaves in the logs -/

/-- In the output log. -/
def written : Event → Bytes
  | read _ | greeted _ => []
  | wrote frame => frame
  | reported request chain => Utf8.encode (Service.failureReport request chain)

/-- In the input log. -/
def told : Event → Bytes
  | read line => Utf8.encode (line ++ "\n")
  | greeted _ | wrote _ | reported _ _ => []

end Event

namespace Write

/-- What tells of the failure. -/
def report (w : Write) : Bytes :=
  match w.failure with
  | none => []
  | some (request, chain) => Utf8.encode (Service.failureReport request chain)

/-- The frame with its report behind it. -/
def logged (w : Write) : Bytes := w.frame ++ w.report

end Write

/-! ## What events come to -/

/-- The events are these writes and the reading of these lines. -/
structure Event.AmountTo (events : List Event) (writes : List Write) (read : List String) :
    Prop where
  frames : Event.frames events = writes.map Write.frame
  written : events.flatMap Event.written = writes.flatMap Write.logged
  lines : Event.lines events = read

namespace Event.AmountTo

variable {earlier later : List Event} {writes writes' : List Write} {read read' : List String}

theorem append (h : AmountTo earlier writes read) (h' : AmountTo later writes' read') :
    AmountTo (earlier ++ later) (writes ++ writes') (read ++ read') where
  frames := by
    rw [List.map_append, ← h.frames, ← h'.frames]
    exact List.filterMap_append
  written := by rw [List.flatMap_append, List.flatMap_append, h.written, h'.written]
  lines := by
    rw [← h.lines, ← h'.lines]
    exact List.filterMap_append

theorem nil : AmountTo [] [] [] := ⟨rfl, rfl, rfl⟩

theorem reads (lines : List String) : AmountTo (lines.map .read) [] lines := by
  induction lines with
  | nil => exact nil
  | cons line lines ih =>
    have hline : AmountTo [.read line] [] [line] := ⟨rfl, rfl, rfl⟩
    exact hline.append ih

theorem greeted (h : AmountTo later writes read) (env : LookupEnv) :
    AmountTo (.greeted env :: later) writes read := ⟨h.frames, h.written, h.lines⟩

theorem write (w : Write) : AmountTo w.events [w] [] where
  frames := w.frames_events
  written := by
    rcases w with ⟨frame, _ | failure⟩ <;>
      simp [Write.events, Write.logged, Write.report, Event.written]
  lines := w.lines_events

end Event.AmountTo

namespace Service

variable {s : Service} {base files : FileSystem} {st : Session} {output input : LogFile}
  {written told : Bytes} {now : FileSystem}

/-! ## Logs along a session -/

/-- Both logs are set up and are different files. This is what they hold. -/
structure LogsHold (s : Service) (files : FileSystem) (output input : LogFile)
    (written told : Bytes) : Prop where
  outputLog : s.outputLog = some output
  inputLog : s.inputLog = some input
  apart : files.locate output.path ≠ files.locate input.path
  written : files.read output.path = .ok written
  told : files.read input.path = .ok told

theorem LogsHold.noteOutput (h : s.LogsHold files output input written told) (bytes : Bytes) :
    s.LogsHold (LogFile.note s.outputLog files bytes) output input (written ++ bytes) told := by
  rw [h.outputLog]
  have hsame := LogFile.sameBut_note_self output files bytes
  refine ⟨h.outputLog, h.inputLog, ?_, LogFile.read_note h.written bytes, ?_⟩
  · rw [hsame.locate_eq, hsame.locate_eq]
    exact h.apart
  · rw [LogFile.read_note_of_ne h.apart.symm, h.told]

theorem LogsHold.noteInput (h : s.LogsHold files output input written told) (bytes : Bytes) :
    s.LogsHold (LogFile.note s.inputLog files bytes) output input written (told ++ bytes) := by
  rw [h.inputLog]
  have hsame := LogFile.sameBut_note_self input files bytes
  refine ⟨h.outputLog, h.inputLog, ?_, ?_, LogFile.read_note h.told bytes⟩
  · rw [hsame.locate_eq, hsame.locate_eq]
    exact h.apart
  · rw [LogFile.read_note_of_ne h.apart, h.written]

theorem LogsHold.after (h : s.LogsHold st.files output input written told) (e : Event) :
    s.LogsHold (s.after st e).files output input (written ++ e.written) (told ++ e.told) := by
  cases e with
  | read line =>
    rw [Event.written, List.append_nil]
    exact h.noteInput _
  | greeted env =>
    rw [Event.written, Event.told, List.append_nil, List.append_nil]
    exact h
  | wrote frame =>
    rw [Event.told, List.append_nil]
    exact h.noteOutput frame
  | reported request chain =>
    rw [Event.told, List.append_nil]
    exact h.noteOutput _

theorem LogsHold.afterAll (h : s.LogsHold st.files output input written told)
    (events : List Event) :
    s.LogsHold (s.afterAll st events).files output input
      (written ++ events.flatMap Event.written) (told ++ events.flatMap Event.told) := by
  induction events generalizing st written told with
  | nil =>
    rw [List.flatMap_nil, List.flatMap_nil, List.append_nil, List.append_nil]
    exact h
  | cons e events ih =>
    rw [List.flatMap_cons, List.flatMap_cons, ← List.append_assoc, ← List.append_assoc]
    exact ih (h.after e)

/-- What a session has to write for the text of its input. -/
def writes (s : Service) (withHandshake : Bool) (files : FileSystem) (text : String) :
    List Write :=
  (if withHandshake then [statusWrite (opening withHandshake files text).2] else [])
    ++ (requestsIn withHandshake text).map
      (s.answerWrite files (opening withHandshake files text).1)

/-- The lines of the handshake, if there is one, the requests and the line behind them. -/
def heard (withHandshake : Bool) (text : String) : List String :=
  (Lines.trimmed text).take
    ((if withHandshake then 4 else 0) + (requestsIn withHandshake text).length + 1)

/-- Why the directory cannot be read. -/
def isDirectory : ErrorChain :=
  ⟨"Failed to read source file: d", ["Is a directory (os error 21)"]⟩

end Service

end UnitAtlas
