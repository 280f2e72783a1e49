-- Reports: for each file its entities, or why it could not be mapped.
import UnitAtlas.Source.Analysis

namespace UnitAtlas

/-- What is reported about a file. -/
inductive FileReport where
  | mapped (path : String) (entities : List Entity)
  | failed (path : String) (error : String)
  deriving Repr, DecidableEq

namespace FileReport

/-- The report of one file. A panic of the backend ends the whole report. -/
def ofFile (backend : Backend) (c : Classifier) (fs : FileSystem) (path : String) :
    Except String FileReport :=
  match Source.analyze backend c fs path with
  | .ok entities => .ok (.mapped path entities)
  | .error (.error chain) => .ok (.failed path chain.oneLine)
  | .error (.panic message) => .error message

/-- The reports of several files. -/
def ofFiles (backend : Backend) (c : Classifier) (fs : FileSystem) (paths : List String) :
    Except String (List FileReport) := paths.mapM (ofFile backend c fs)

end FileReport

end UnitAtlas
