-- The command line: reads the disk and the input as far as the next step needs them, lets the
-- library decide, and writes down what it decided.
import UnitAtlas.Command.Listings
import UnitAtlas.Command.Program

namespace UnitAtlas.Disk

/-! ## Looking at the disk -/

def textOf (spot : Location) : String := "/" ++ "/".intercalate spot

/-- What is at a location. -/
def entryAt? (spot : Location) : IO (Option FileEntry) := do
  let path := (← IO.currentDir) / textOf spot
  if ← path.isDir then return some .directory
  if ← path.pathExists then return some (.file (← IO.FS.readBinFile path).data.toList)
  return none

/-- A file system with nothing but the directory that relative paths start from. -/
def bare : IO FileSystem := do
  let names := ((Path.parts (toString (← IO.currentDir))).filter (· ≠ ""))
  let above := (List.range names.length).map fun n => (names.take (n + 1), FileEntry.directory)
  return ⟨names, above⟩

/-- Adds what is on the way along the parts of a path, as far as it is there. -/
def addParts (fs : FileSystem) (spot : Location) : List String → IO FileSystem
  | [] => return fs
  | part :: rest => do
    let next := if part = "" ∨ part = "." then spot
      else if part = ".." then spot.dropLast else spot ++ [part]
    match ← entryAt? next with
    | some e => addParts (fs.put next e) next rest
    | none => return fs

def addPath (fs : FileSystem) (path : String) : IO FileSystem :=
  addParts fs (fs.origin path) (Path.parts path)

/-- Adds files with their listings, and the ignore files above them. -/
def addSources (fs : FileSystem) (paths : List String) : IO FileSystem :=
  paths.foldlM (fun fs path => do addPath (← addPath fs path) (path ++ Listings.ending)) fs

/-- Adds all that is in a directory. -/
partial def addBelow (fs : FileSystem) (spot : Location) : IO FileSystem := do
  let found ← ((← IO.currentDir) / textOf spot).readDir
  found.toList.foldlM (fun fs item => do
    let there := spot ++ [item.fileName]
    match ← entryAt? there with
    | some .directory => addBelow (fs.put there .directory) there
    | some e => return fs.put there e
    | none => return fs) fs

/-- Adds the ignore files of the directories above a location. -/
def addIgnoreFiles (fs : FileSystem) (spot : Location) : IO FileSystem :=
  (Ignore.depthsAbove spot).foldlM (fun fs n => do
    let there := spot.take n ++ [Ignore.fileName]
    match ← entryAt? there with
    | some e => return fs.put there e
    | none => return fs) fs

/-- Adds what a report on a path can be about. -/
def addReported (fs : FileSystem) (path : String) : IO FileSystem := do
  let fs ← addSources fs [path]
  match fs.locate path with
  | .ok spot =>
    if fs.isDirectory path then addBelow (← addIgnoreFiles fs spot) spot else return fs
  | .error _ => return fs

/-! ## Changing the disk -/

/-- Makes the disk as it is in `after`, where that differs from `before`. -/
def save (before after : FileSystem) : IO Unit :=
  after.entries.reverse.forM fun (spot, e) => do
    if before.entry? spot = some e then return
    match e with
    | .directory => IO.FS.createDirAll (textOf spot)
    | .file content => IO.FS.writeBinFile (textOf spot) ⟨content.toArray⟩

end UnitAtlas.Disk

namespace UnitAtlas.Console

/-! ## Streams -/

/-- The next line, empty at the end of the input. `soFar` is its start, the last byte first. -/
partial def readRaw (input : IO.FS.Stream) (soFar : Bytes) : IO Bytes := do
  match (← input.read 1).data.toList with
  | [] => return soFar.reverse
  | b :: _ => if b = 10 then return (b :: soFar).reverse else readRaw input (b :: soFar)

def writeBytes (bytes : Bytes) : IO Unit := do
  let output ← IO.getStdout
  output.write ⟨bytes.toArray⟩
  output.flush

/-- Ends the program. -/
def close (ending : Ending) : IO UInt32 := do
  writeBytes ending.output
  IO.eprint ending.errors
  return UInt32.ofNat ending.exitCode

/-! ## Sessions -/

/-- A session at the files `fs`, with nothing written. -/
def resumed (st : Session) (fs : FileSystem) (input : List Bytes) : Session :=
  { st with files := fs, input := input, frames := [] }

def withLogFiles (s : Service) (fs : FileSystem) : IO FileSystem :=
  (s.outputLog.toList ++ s.inputLog.toList).foldlM (fun fs log => Disk.addPath fs log.path) fs

/-- Writes down what a step did. -/
def settle (before : FileSystem) (after : Session) : IO Unit := do
  writeBytes after.frames.flatten
  Disk.save before after.files

/-- One request after the other. -/
partial def converse (s : Service) (st : Session) : IO UInt32 := do
  let raw ← readRaw (← IO.getStdin) []
  let request := ((Input.text raw).toOption).getD ""
  let fs ← Disk.addSources (← withLogFiles s (← Disk.bare)) (st.env.candidates request)
  let s := { s with backend := Listings.backend fs }
  let (outcome, after) := s.serve (resumed st fs (if raw.isEmpty then [] else [raw]))
  settle fs after
  match outcome with
  | .error chain => close (Program.failed [] chain)
  | .ok () => if request = "" then close { exitCode := 0 } else converse s after

/-- Up to a number of lines, as far as the input goes. -/
def readRaws (input : IO.FS.Stream) : Nat → IO (List Bytes)
  | 0 => return []
  | count + 1 => do
    let raw ← readRaw input []
    if raw.isEmpty then return []
    return raw :: (← readRaws input count)

/-- The handshake, and then the requests. -/
def greet (s : Service) (st : Session) : IO UInt32 := do
  let raws ← readRaws (← IO.getStdin) 4
  let directories := raws.filterMap fun raw => (Input.text raw).toOption
  let fs ← directories.foldlM Disk.addPath (← withLogFiles s (← Disk.bare))
  let (outcome, after) := s.handshake (resumed st fs raws)
  settle fs after
  match outcome with
  | .error chain => close (Program.failed [] chain)
  | .ok () => converse s after

/-! ## The program -/

/-- The files that a command line is about. -/
def filesFor (arguments : List String) : IO FileSystem := do
  match CommandLine.ofArguments (Implicit.withCommand arguments) with
  | .ok ⟨.dump paths _, _, _⟩ => paths.foldlM Disk.addReported (← Disk.bare)
  | .ok ⟨.serve outputLog inputLog _, _, _⟩ =>
    (outputLog.toList ++ inputLog.toList).foldlM Disk.addPath (← Disk.bare)
  | .error _ => Disk.bare

def environment : IO Environment :=
  [Settings.glueVariable, Settings.signatureLengthVariable].filterMapM fun name => do
    return (← IO.getEnv name).map fun text => (name, text)

def run (arguments : List String) : IO UInt32 := do
  let fs ← filesFor arguments
  match Program.plan (Listings.backend fs) arguments (← environment) fs with
  | .finished ending => close ending
  | .service s withHandshake ready => do
    Disk.save fs ready
    let st := Session.ofInput ready []
    if withHandshake then greet s st else converse s st

end UnitAtlas.Console

def main (arguments : List String) : IO UInt32 :=
  UnitAtlas.Console.run ("unit-atlas" :: arguments)
