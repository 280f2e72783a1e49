-- The files of a report: those named, and the source files in the directories named, in the
-- order of paths and each only once.
import UnitAtlas.Files.Walk

namespace UnitAtlas.Collect

/-- A path that is not there. -/
structure MissingPath where
  path : String
  deriving Repr, DecidableEq

def MissingPath.message (e : MissingPath) : String := s!"No such file or directory: {e.path}"

/-- The files that one path stands for, where `walk` lists the source files of a directory. -/
def filesOf (fs : FileSystem) (walk : String → List String) (path : String) :
    Except MissingPath (List String) :=
  if fs.isDirectory path then .ok (walk path)
  else if fs.isThere path then .ok [path]
  else .error ⟨path⟩

/-- The files of all paths. -/
def filesOfAll (fs : FileSystem) (walk : String → List String) :
    List String → Except MissingPath (List String)
  | [] => return []
  | p :: ps => do
    let here ← filesOf fs walk p
    let later ← filesOfAll fs walk ps
    return here ++ later

/-- Of neighbours that are the same path only the first. -/
def distinct : List String → List String
  | [] => []
  | p :: ps =>
    match distinct ps with
    | [] => [p]
    | q :: qs => if Path.same p q then p :: qs else p :: q :: qs

/-- Paths in order, each of them once. -/
def arranged (files : List String) : List String := distinct (files.mergeSort Path.le)

/-- The files of a report. -/
def collect (fs : FileSystem) (walk : String → List String) (paths : List String) :
    Except MissingPath (List String) := do
  let files ← filesOfAll fs walk paths
  return arranged files

end UnitAtlas.Collect
