-- A file system as a value: files and directories by where they are, and the directory that
-- relative paths start from. Paths are followed step by step, so each step must lead into
-- a directory that is there.
import UnitAtlas.Files.Path
import UnitAtlas.Unit.Basic

namespace UnitAtlas

/-- Where a file or a directory is: the names on the way from the root. -/
abbrev Location := List String

inductive FileEntry where
  | file (content : Bytes)
  | directory
  deriving Repr, DecidableEq

structure FileSystem where
  current : Location
  entries : List (Location × FileEntry)
  deriving Repr, DecidableEq

/-- Why an operation on a path failed. -/
inductive FileError where
  | notFound
  | alreadyThere
  | notDirectory
  | isDirectory
  | zeroByte
  deriving Repr, DecidableEq

def FileError.message : FileError → String
  | .notFound => "No such file or directory (os error 2)"
  | .alreadyThere => "File exists (os error 17)"
  | .notDirectory => "Not a directory (os error 20)"
  | .isDirectory => "Is a directory (os error 21)"
  | .zeroByte => "file name contained an unexpected NUL byte"

namespace FileSystem

/-! ## Entries -/

/-- What is at a location. The root is always a directory. -/
def entry? (fs : FileSystem) (spot : Location) : Option FileEntry :=
  if spot = [] then some .directory else fs.entries.lookup spot

def remove (fs : FileSystem) (spot : Location) : FileSystem :=
  { fs with entries := fs.entries.filter (·.1 ≠ spot) }

/-- Puts an entry at a location, in place of what is there. -/
def put (fs : FileSystem) (spot : Location) (e : FileEntry) : FileSystem :=
  { fs with entries := (spot, e) :: (fs.remove spot).entries }

/-- The names in a directory, with what is there. -/
def children (fs : FileSystem) (spot : Location) : List (String × FileEntry) :=
  fs.entries.filterMap fun (l, e) =>
    if l ≠ [] ∧ l.dropLast = spot then some (l.getLast?.getD "", e) else none

/-! ## Following paths -/

/-- One step from a location. -/
def follow (fs : FileSystem) (spot : Location) (part : String) : Except FileError Location :=
  match fs.entry? spot with
  | none => .error .notFound
  | some (.file _) => .error .notDirectory
  | some .directory =>
    if part = "" ∨ part = "." then .ok spot
    else if part = ".." then .ok spot.dropLast
    else if (fs.entry? (spot ++ [part])).isSome then .ok (spot ++ [part])
    else .error .notFound

/-- Several steps. -/
def followAll (fs : FileSystem) (spot : Location) (parts : List String) :
    Except FileError Location := parts.foldlM fs.follow spot

/-- Where a path starts. -/
def origin (fs : FileSystem) (path : String) : Location :=
  if Path.isAbsolute path then [] else fs.current

/-- Where a path leads. The empty path leads nowhere. -/
def locate (fs : FileSystem) (path : String) : Except FileError Location :=
  if path = "" then .error .notFound
  else if path.toList.contains '\x00' then .error .zeroByte
  else fs.followAll (fs.origin path) (Path.parts path)

def find (fs : FileSystem) (path : String) : Option FileEntry :=
  match fs.locate path with
  | .ok spot => fs.entry? spot
  | .error _ => none

def isThere (fs : FileSystem) (path : String) : Bool := (fs.find path).isSome

def isDirectory (fs : FileSystem) (path : String) : Bool := fs.find path == some .directory

/-! ## Reading and writing -/

def read (fs : FileSystem) (path : String) : Except FileError Bytes := do
  let spot ← fs.locate path
  match fs.entry? spot with
  | some (.file content) => .ok content
  | some .directory => .error .isDirectory
  | none => .error .notFound

/-- The location of the directory that holds the last part of a path, and that part. -/
def locateParent (fs : FileSystem) (path : String) (parts : List String) :
    Except FileError (Location × String) := do
  if path = "" then .error .notFound
  if path.toList.contains '\x00' then .error .zeroByte
  let holder ← fs.followAll (fs.origin path) parts.dropLast
  let _ ← fs.follow holder ""
  return (holder, parts.getLast?.getD "")

/-- The parts of a path without empty ones at its end. -/
def solidParts (path : String) : List String :=
  ((Path.parts path).reverse.dropWhile (· = "")).reverse

def isDotPart (part : String) : Bool := part = "" || part = "." || part = ".."

/-- Makes one directory. -/
def makeDirectory (fs : FileSystem) (path : String) : Except FileError FileSystem := do
  let (holder, name) ← fs.locateParent path (solidParts path)
  if isDotPart name || (fs.entry? (holder ++ [name])).isSome then .error .alreadyThere
  return fs.put (holder ++ [name]) .directory

/-- Makes a directory and those above it that are missing; `fuel` bounds their number. -/
def makeDirectories (fs : FileSystem) (path : String) : Nat → Except FileError FileSystem
  | 0 => .error .notFound
  | fuel + 1 =>
    if path = "" then .ok fs
    else
      match fs.makeDirectory path with
      | .ok made => .ok made
      | .error .notFound => do
        let some above := Path.parent? path | .error .notFound
        let made ← makeDirectories fs above fuel
        match made.makeDirectory path with
        | .ok all => .ok all
        | .error e => if made.isDirectory path then .ok made else .error e
      | .error e => if fs.isDirectory path then .ok fs else .error e

/-- Makes a directory and those above it that are missing. -/
def makeAll (fs : FileSystem) (path : String) : Except FileError FileSystem :=
  fs.makeDirectories path (path.length + 1)

/-- Makes an empty file, or empties the one that is there. -/
def truncate (fs : FileSystem) (path : String) : Except FileError FileSystem := do
  let (holder, name) ← fs.locateParent path
    (if path.endsWith "/" then solidParts path else Path.parts path)
  if isDotPart name || path.endsWith "/" then .error .isDirectory
  if fs.entry? (holder ++ [name]) = some .directory then .error .isDirectory
  return fs.put (holder ++ [name]) (.file [])

/-- Adds bytes to the end of a file that is there. -/
def append (fs : FileSystem) (path : String) (bytes : Bytes) : Except FileError FileSystem := do
  let spot ← fs.locate path
  match fs.entry? spot with
  | some (.file content) => .ok (fs.put spot (.file (content ++ bytes)))
  | some .directory => .error .isDirectory
  | none => .error .notFound

end FileSystem

end UnitAtlas
