-- Log files of a session: emptied once when they are set up, and added to after that.
import UnitAtlas.Files.System
import UnitAtlas.Text.Chain

namespace UnitAtlas

/-- A log, by the path of its file. -/
structure LogFile where
  path : String
  deriving Repr, DecidableEq

namespace LogFile

/-- The failure of an operation on a file. -/
def failed {α : Type} (what path : String) (result : Except FileError α) :
    Except ErrorChain α :=
  result.mapError fun e => .under s!"{what}: {path}" ⟨e.message, []⟩

/-- The file system with the directory of a log in it. -/
def withDirectory (fs : FileSystem) (path : String) : Except ErrorChain FileSystem :=
  match Path.parent? path with
  | none => .ok fs
  | some above =>
    if above = "" then .ok fs
    else failed "Failed to create log directory" above (fs.makeAll above)

/-- Sets up a log: its directory, and the file, empty. -/
def create (fs : FileSystem) (path : String) : Except ErrorChain (LogFile × FileSystem) := do
  let ready ← withDirectory fs path
  let emptied ← failed "Failed to truncate log file" path (ready.truncate path)
  return (⟨path⟩, emptied)

/-- Adds to a log. Its file must still be there. -/
def append (log : LogFile) (fs : FileSystem) (bytes : Bytes) : Except ErrorChain FileSystem :=
  failed "Failed to open log file" log.path (fs.append log.path bytes)

/-- Adds to a log, if there is one and it can be added to. -/
def note (log : Option LogFile) (fs : FileSystem) (bytes : Bytes) : FileSystem :=
  match log with
  | none => fs
  | some file =>
    match file.append fs bytes with
    | .ok written => written
    | .error _ => fs

end LogFile

end UnitAtlas
